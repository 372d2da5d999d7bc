import HdlPorts.Declaration.Encoding
import HdlPorts.Elaboration.InitialValue
import HdlPorts.Netlist.WellFormed
import HdlPorts.Settings

/-! Building the entity of a module.

Ports are taken in the order of their declaration. Each one is first looked at by itself: its type
and its initializer's place. Then it is split, which may enter a name into the table, its signals
claim their names, and its output is driven. The first port that cannot be taken decides the
rejection. Names that were entered before that stay in the table.
-/

set_option autoImplicit false

namespace HdlPorts

/-- A signal name that a port has taken. -/
structure Claim where
  name : Name
  port : Name
  span : Span
  deriving DecidableEq

/-- An entity that holds the ports taken so far, and the names they claim. -/
structure Progress where
  entity : Entity
  claims : List Claim

namespace Progress

/-- Nothing taken yet. -/
def start (m : Module) (digest : Digest) : Progress := ⟨.empty m.name digest m.span, []⟩

def claimant? (progress : Progress) (name : Name) : Option Claim :=
  progress.claims.find? (·.name == name)

def claim (progress : Progress) (names : Names) (site : Site) (port : Port) (name : Name) :
    Attempt Rejection Progress :=
  match progress.claimant? name with
  | none => .ok { progress with claims := ⟨name, port.name, port.span⟩ :: progress.claims }
  | some first => do
    let text ← Attempt.ofChecked (names.text name)
    let firstPort ← Attempt.ofChecked (names.text first.port)
    Attempt.refuse (.nameCollision site text firstPort first.span)

def takeInput (progress : Progress) (names : Names) (site : Site) (port : Port) :
    Option Signal → Attempt Rejection Progress
  | none => .ok progress
  | some signal => do
    let progress ← progress.claim names site port signal.name
    return { progress with entity := (progress.entity.addSignal signal).2 }

def takeOutput (progress : Progress) (names : Names) (site : Site) (port : Port)
    (origin : Origin) : Option Signal → Attempt Rejection Progress
  | none => .ok progress
  | some signal => do
    let progress ← progress.claim names site port signal.name
    let (id, entity) := progress.entity.addSignal signal
    match ← signal.drive? id origin site with
    | none => return { progress with entity }
    | some drive => return { progress with entity := entity.addDrive drive }

def takeHalves (progress : Progress) (names : Names) (site : Site) (port : Port)
    (origin : Origin) (halves : Halves) : Attempt Rejection Progress := do
  let progress ← progress.takeInput names site port halves.input
  progress.takeOutput names site port origin halves.output

end Progress

/-- What is known of a port from its declaration alone. -/
structure PortPlan where
  site : Site
  type : SignalType
  origin : Origin

/-- Look at a port by itself. -/
def Port.plan (port : Port) (settings : Settings) (moduleName : String) (names : Names) :
    Attempt Rejection PortPlan := do
  let portName ← Attempt.ofChecked (names.text port.name)
  let site : Site := ⟨moduleName, portName, port.span⟩
  let type ← port.signalType site
  let origin ← port.origin settings.twoStateDefaults site
  return ⟨site, type, origin⟩

namespace Progress

def takePort (settings : Settings) (moduleName : String) (progress : Progress) (port : Port)
    (names : Names) : Attempt Rejection Progress × Names :=
  match port.plan settings moduleName names with
  | .error stop => (.error stop, names)
  | .ok plan =>
    match port.split plan.type settings.companionSuffix names with
    | .error fault => (.error (.broken fault), names)
    | .ok (halves, names) =>
      (progress.takeHalves names plan.site port plan.origin halves, names)

/-- Take ports one after another, up to the first that cannot be taken. -/
def takePorts (settings : Settings) (moduleName : String) (progress : Progress) :
    List Port → Names → Attempt Rejection Progress × Names
  | [], names => (.ok progress, names)
  | port :: rest, names =>
    match takePort settings moduleName progress port names with
    | (.error stop, names) => (.error stop, names)
    | (.ok progress, names) => takePorts settings moduleName progress rest names

/-- The entity, once all ports are taken. It is checked as any entity can be. -/
def finish (progress : Progress) (moduleName : String) (span : Span) (names : Names) :
    Attempt Rejection Entity :=
  match progress.entity.check with
  | .ok () => .ok progress.entity
  | .error (.broken fault) => .error (.broken fault)
  | .error (.refused (.duplicateName name)) => do
    let text ← Attempt.ofChecked (names.text name)
    Attempt.refuse (.duplicateName moduleName text span)
  | .error (.refused violation) =>
    .refuse (.internal ("entity `" ++ moduleName ++ "` is malformed: " ++ violation.message))

end Progress

namespace Module

def buildWith (m : Module) (digest : Digest) (settings : Settings) (names : Names) :
    Attempt Rejection Entity × Names :=
  match names.text m.name with
  | .error fault => (.error (.broken fault), names)
  | .ok moduleName =>
    match Progress.takePorts settings moduleName (.start m digest) m.ports names with
    | (.error stop, names) => (.error stop, names)
    | (.ok progress, names) => (progress.finish moduleName m.span names, names)

def build (m : Module) (settings : Settings) (names : Names) : Attempt Rejection Entity × Names :=
  m.buildWith m.digest settings names

end Module

end HdlPorts
