import HdlPorts.Bits.Text
import HdlPorts.Netlist.Entity

/-! Entities as text.

```
entity @B (i1$ %x, i1$ %z) (i1$ %y, i1$ %z0) {
    drv %y 0
    drv %z0 0
}
```

A listed signal that the entity does not have is shown as `? %<9>`.
-/

set_option autoImplicit false

namespace HdlPorts.Entity

def signalName (entity : Entity) (names : Names) (id : SignalId) : Checked String :=
  match entity.signal? id with
  | some signal => names.text signal.name
  | none => .ok ("<" ++ toString id.index ++ ">")

def signalText (entity : Entity) (names : Names) (id : SignalId) : Checked String := do
  let type := match entity.signal? id with
    | some signal => signal.type.text ++ "$"
    | none => "?"
  let name ← entity.signalName names id
  return type ++ " %" ++ name

def signalList (entity : Entity) (names : Names) (ids : List SignalId) : Checked String := do
  let texts ← ids.mapM (entity.signalText names)
  return "(" ++ ", ".intercalate texts ++ ")"

def driveText (entity : Entity) (names : Names) (drive : Drive) : Checked String := do
  let name ← entity.signalName names drive.target
  let value ← drive.value.valueText
  return "\n    drv %" ++ name ++ " " ++ value

def listing (entity : Entity) (names : Names) : Checked String := do
  let name ← names.text entity.name
  let inputs ← entity.signalList names entity.inputs
  let outputs ← entity.signalList names entity.outputs
  let drives ← entity.body.mapM (entity.driveText names)
  return "entity @" ++ name ++ " " ++ inputs ++ " " ++ outputs ++ " \x7b" ++ String.join drives
    ++ "\n\x7d"

end HdlPorts.Entity
