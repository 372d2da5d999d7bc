import HdlPorts.Digest
import HdlPorts.Netlist.Signal

/-! Entities: what modules are elaborated to.

An entity owns its signals, lists them as inputs and outputs in the order of the ports, and holds
the constants that drive its outputs.
-/

set_option autoImplicit false

namespace HdlPorts

structure Entity where
  name : Name
  signals : Arena Signal
  inputs : List SignalId
  outputs : List SignalId
  body : List Drive
  /-- The digest of the declaration that the entity was built from. -/
  digest : Digest
  span : Span
  deriving DecidableEq

abbrev EntityId := Slot Entity

namespace Entity

def empty (name : Name) (digest : Digest) (span : Span) : Entity :=
  ⟨name, .empty, [], [], [], digest, span⟩

/-- Store a signal and list it on the side that its role says. -/
def addSignal (entity : Entity) (signal : Signal) : SignalId × Entity :=
  let (id, signals) := entity.signals.alloc signal
  match signal.role with
  | .input => (id, { entity with signals, inputs := entity.inputs ++ [id] })
  | .output => (id, { entity with signals, outputs := entity.outputs ++ [id] })

def addDrive (entity : Entity) (drive : Drive) : Entity :=
  { entity with body := entity.body ++ [drive] }

def signal? (entity : Entity) (id : SignalId) : Option Signal := entity.signals.get? id

def inputSignals (entity : Entity) : Checked (List Signal) := entity.inputs.mapM entity.signals.get

def outputSignals (entity : Entity) : Checked (List Signal) :=
  entity.outputs.mapM entity.signals.get

/-- The first of some signals that has the given name. -/
def findAmong (entity : Entity) (name : Name) : List SignalId → Checked (Option SignalId)
  | [] => .ok none
  | id :: rest => do
    let signal ← entity.signals.get id
    if signal.name = name then return some id else entity.findAmong name rest

def find (entity : Entity) (name : Name) : Checked (Option SignalId) :=
  entity.findAmong name (entity.inputs ++ entity.outputs)

def driveOf? (entity : Entity) (target : SignalId) : Option Drive :=
  entity.body.find? (·.target == target)

end Entity

end HdlPorts
