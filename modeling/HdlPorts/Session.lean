import HdlPorts.Elaboration.Build
import HdlPorts.Report.Log

/-! Sessions: elaborating many modules with one table of names.

A session keeps every entity it has built. For each module name it knows the current one: the entity
of the last elaboration of that name, if that one succeeded. A module that is declared as the
current entity of its name was is not built again. Every rejection is recorded in the log.
-/

set_option autoImplicit false

namespace HdlPorts

structure Session where
  settings : Settings
  names : Names
  log : Log
  entities : Arena Entity
  /-- The current entity of each name that has one. -/
  current : List (Name × EntityId)

abbrev Outcome := Except Rejection EntityId

/-- A refusal as a value, so that only faults stop what follows. -/
def Attempt.settle {ε α : Type} : Attempt ε α → Checked (Except ε α)
  | .ok value => .ok (.ok value)
  | .error (.refused reason) => .ok (.error reason)
  | .error (.broken fault) => .error fault

namespace Session

def start (settings : Settings) (names : Names) : Session := ⟨settings, names, .empty, .empty, []⟩

/-- Where the current entity of a name is. -/
def currentOf? (session : Session) (name : Name) : Option EntityId :=
  (session.current.find? (·.1 == name)).map (·.2)

def entity? (session : Session) (name : Name) : Option Entity := do
  let id ← session.currentOf? name
  session.entities.get? id

/-- Any entity the session has built. -/
def get? (session : Session) (id : EntityId) : Option Entity := session.entities.get? id

def size (session : Session) : Nat := session.current.length

def isEmpty (session : Session) : Bool := session.current.isEmpty

/-- Go through stored entities and keep those whose identifiers are listed. Both are in the order of
the arena, so only the first identifier that is left has to be compared. -/
def collect : List EntityId → List (EntityId × Entity) → List Entity
  | [], _ => []
  | _ :: _, [] => []
  | id :: ids, (slot, entity) :: entries =>
    if id = slot then entity :: collect ids entries else collect (id :: ids) entries

/-- The current entities, by the time at which they were built. -/
def currentEntities (session : Session) : List Entity :=
  let ids := (session.current.map (·.2)).mergeSort fun first second => first.index ≤ second.index
  collect ids session.entities.entries

/-- The current entity of a name, if it was built from a declaration with this digest. -/
def cached? (session : Session) (name : Name) (digest : Digest) : Option EntityId := do
  let id ← session.currentOf? name
  let entity ← session.entities.get? id
  if entity.digest = digest then some id else none

/-- Forget the current entity of a name. -/
def dropCurrent (session : Session) (name : Name) : Session :=
  { session with current := session.current.filter (·.1 != name) }

/-- Make the result of a build the state of a name. -/
def settleName (session : Session) (name : Name) : Except Rejection Entity → Outcome × Session
  | .ok entity =>
    let (id, entities) := session.entities.alloc entity
    let session := session.dropCurrent name
    (.ok id, { session with entities, current := (name, id) :: session.current })
  | .error rejection => (.error rejection, session.dropCurrent name)

/-- Elaborate a module without recording a rejection in the log. -/
def elaborateUnlogged (session : Session) (m : Module) : Checked (Outcome × Session) :=
  match session.cached? m.name m.digest with
  | some id => .ok (.ok id, session)
  | none => do
    let (attempt, names) := m.buildWith m.digest session.settings session.names
    let built ← attempt.settle
    return settleName { session with names } m.name built

/-- Record an outcome in the log, if it is a rejection. -/
def logged (outcome : Outcome) (session : Session) : Session :=
  match outcome with
  | .ok _ => session
  | .error rejection => { session with log := session.log.record rejection.diagnostic }

def elaborate (session : Session) (m : Module) : Checked (Outcome × Session) := do
  let (outcome, session) ← session.elaborateUnlogged m
  return (outcome, logged outcome session)

end Session

end HdlPorts
