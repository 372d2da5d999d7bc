import HdlPorts.Elaboration.Boundary
import HdlPorts.Elaboration.Folding

/-! The constant that drives an output, and where it comes from. -/

set_option autoImplicit false

namespace HdlPorts

inductive Origin where
  | declared (initializer : Expression)
  /-- A companion is driven with zero. -/
  | companion
  /-- A two-state output without an initializer is driven with zero. -/
  | twoState
  | undriven

namespace Port

/-- Where the value of the output half of a port comes from. An inout port takes no initializer. -/
def origin (port : Port) (twoStateDefaults : Bool) (site : Site) : Attempt Rejection Origin :=
  match port.direction, port.initializer with
  | .inout, some _ => .refuse (.initializedInout site)
  | .inout, none => .ok .companion
  | _, some initializer => .ok (.declared initializer)
  | _, none => .ok (if twoStateDefaults && port.type.isTwoState then .twoState else .undriven)

end Port

/-- The value of an initializer at the width of its target. A value of more bits is turned down,
one of fewer bits is widened. -/
def Expression.fit (initializer : Expression) (width : Nat) (site : Site) :
    Attempt Rejection LogicVector := do
  let value ← (initializer.fold (some width)).mapReason fun error =>
    Rejection.notConstant site error.message
  if width < value.width then
    Attempt.refuse (.widthMismatch site value.width width)
  else
    Attempt.ofChecked (value.extend width)

def Signal.drive? (signal : Signal) (target : SignalId) (origin : Origin) (site : Site) :
    Attempt Rejection (Option Drive) :=
  let width := signal.type.width.toNat
  match origin with
  | .undriven => .ok none
  | .companion | .twoState => .ok (some ⟨target, .zeros width, site.span⟩)
  | .declared initializer => do
    let value ← initializer.fit width site
    return some ⟨target, value, site.span⟩

end HdlPorts
