import HdlPorts.Netlist.Listing
import HdlPorts.Session.Batch

/-! One batch from declarations to listings and diagnostics. -/

set_option autoImplicit false

namespace HdlPorts

/-- What comes out of one batch. -/
structure Production where
  /-- The entity of each module, or why it has none. -/
  results : List (Except Rejection Entity)
  /-- The listings of the entities, in order. -/
  listings : List String
  diagnostics : List Diagnostic
  errorCount : Nat
  /-- The table of names afterwards. -/
  names : Names

namespace Production

def hasErrors (production : Production) : Bool := 0 < production.errorCount

def warningCount (production : Production) : Nat :=
  production.diagnostics.countP (·.severity == .warning)

def resolve (session : Session) : List Outcome → Checked (List (Except Rejection Entity))
  | [] => .ok []
  | .error rejection :: rest => do return .error rejection :: (← resolve session rest)
  | .ok id :: rest => do
    let entity ← session.entities.get id
    return .ok entity :: (← resolve session rest)

def listAll (names : Names) : List (Except Rejection Entity) → Checked (List String)
  | [] => .ok []
  | .error _ :: rest => listAll names rest
  | .ok entity :: rest => do
    let text ← entity.listing names
    return text :: (← listAll names rest)

/-- Elaborate a batch in a session of its own. -/
def run (modules : List Module) (names : Names) (settings : Settings) : Checked Production := do
  let (outcomes, session) ← (Session.start settings names).elaborateAll modules
  let results ← resolve session outcomes
  let listings ← listAll session.names results
  let (diagnostics, _) := session.log.drain
  return ⟨results, listings, diagnostics, session.log.errors, session.names⟩

end Production

/-- The listing of one module under the default settings, or why there is none. -/
def Module.listing (m : Module) (names : Names) : Attempt Rejection String := do
  let production ← Attempt.ofChecked (Production.run [m] names {})
  match production.results with
  | .ok entity :: _ => Attempt.ofChecked (entity.listing production.names)
  | .error rejection :: _ => Attempt.refuse rejection
  | [] => .error (.broken .unknownSlot)

end HdlPorts
