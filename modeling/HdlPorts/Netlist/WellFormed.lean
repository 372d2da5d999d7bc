import HdlPorts.Netlist.Entity

/-! The rules an entity keeps.

Inputs and outputs are signals of the right role with names of their own, and each drive is the only
one of an output and exactly as wide. The check goes through inputs, outputs and drives in order and
reports the first rule that is broken.
-/

set_option autoImplicit false

namespace HdlPorts

inductive Violation where
  | duplicateName (name : Name)
  | roleMismatch (signal : SignalId)
  | targetNotOutput (target : SignalId)
  | multipleDrivers (target : SignalId)
  | driveWidth (target : SignalId) (valueWidth targetWidth : Nat)
  deriving DecidableEq

namespace Violation

def signalText (id : SignalId) : String := "SignalId(" ++ toString id.index ++ ")"

def message : Violation → String
  | duplicateName _ => "signal name used twice on the entity boundary"
  | roleMismatch signal => "signal " ++ signalText signal ++ " is listed with the wrong role"
  | targetNotOutput target => "drive target " ++ signalText target ++ " is not an output"
  | multipleDrivers target => "output " ++ signalText target ++ " has more than one driver"
  | driveWidth target valueWidth targetWidth =>
    "drive of " ++ toString valueWidth ++ " bits onto " ++ signalText target ++ " of "
      ++ toString targetWidth ++ " bits"

end Violation

namespace Entity

/-- Check signals listed with a role, where `seen` holds the names of those before them. Gives the
names of all of them. -/
def checkListed (entity : Entity) (role : Role) : List Name → List SignalId →
    Attempt Violation (List Name)
  | seen, [] => .ok seen
  | seen, id :: rest =>
    match entity.signal? id with
    | none => .refuse (.roleMismatch id)
    | some signal =>
      if signal.role ≠ role then .refuse (.roleMismatch id)
      else if signal.name ∈ seen then .refuse (.duplicateName signal.name)
      else entity.checkListed role (signal.name :: seen) rest

/-- Check drives, where `driven` holds the targets of those before them. -/
def checkDrives (entity : Entity) : List SignalId → List Drive → Attempt Violation Unit
  | _, [] => .ok ()
  | driven, drive :: rest =>
    if drive.target ∉ entity.outputs then .refuse (.targetNotOutput drive.target)
    else if drive.target ∈ driven then .refuse (.multipleDrivers drive.target)
    else
      match entity.signals.get drive.target with
      | .error fault => .error (.broken fault)
      | .ok target =>
        if drive.value.width ≠ target.type.width.toNat then
          .refuse (.driveWidth drive.target drive.value.width target.type.width.toNat)
        else
          entity.checkDrives (drive.target :: driven) rest

def check (entity : Entity) : Attempt Violation Unit := do
  let inputNames ← entity.checkListed .input [] entity.inputs
  let _ ← entity.checkListed .output inputNames entity.outputs
  entity.checkDrives [] entity.body

end Entity

end HdlPorts
