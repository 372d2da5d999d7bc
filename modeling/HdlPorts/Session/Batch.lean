import HdlPorts.Session

/-! Elaborating a batch of modules.

A batch is elaborated in two passes. The first picks the modules that have to be built whatever
happens to the others, the first of each declaration that is not cached, and builds them; they do
not depend on each other, so they can be built at the same time. The second goes through the batch
in order and makes each result the state of its name, as single elaborations would.
-/

set_option autoImplicit false

namespace HdlPorts.Session

/-- The digests of the modules to build in the first pass, where `seen` holds those picked before.
Nothing stands for a module that is not built then. -/
def pick (session : Session) : List (Name × Digest) → List Module → List (Option Digest)
  | _, [] => []
  | seen, m :: rest =>
    let digest := m.digest
    if (session.cached? m.name digest).isNone && !seen.contains (m.name, digest) then
      some digest :: session.pick ((m.name, digest) :: seen) rest
    else
      none :: session.pick seen rest

def buildPicked (settings : Settings) : List (Module × Option Digest) → Names →
    Checked (List (Option (Except Rejection Entity)) × Names)
  | [], names => .ok ([], names)
  | (_, none) :: rest, names => do
    let (results, names) ← buildPicked settings rest names
    return (none :: results, names)
  | (m, some digest) :: rest, names => do
    let (attempt, names) := m.buildWith digest settings names
    let built ← attempt.settle
    let (results, names) ← buildPicked settings rest names
    return (some built :: results, names)

/-- Elaborate one module of a batch, given the result of the first pass if it has one. -/
def elaborateBuilt (session : Session) (m : Module) :
    Option (Except Rejection Entity) → Checked (Outcome × Session)
  | some built =>
    let (outcome, session) := session.settleName m.name built
    .ok (outcome, logged outcome session)
  | none => session.elaborate m

/-- Go through a batch in order, with the results of the first pass. -/
def replay (session : Session) :
    List (Module × Option (Except Rejection Entity)) → Checked (List Outcome × Session)
  | [] => .ok ([], session)
  | (m, built) :: rest => do
    let (outcome, session) ← session.elaborateBuilt m built
    let (outcomes, session) ← session.replay rest
    return (outcome :: outcomes, session)

/-- Elaborate a batch. The outcomes are in the order of the modules. -/
def elaborateAll (session : Session) (modules : List Module) :
    Checked (List Outcome × Session) := do
  let picked := session.pick [] modules
  let (built, names) ← buildPicked session.settings (modules.zip picked) session.names
  replay { session with names } (modules.zip built)

end HdlPorts.Session
