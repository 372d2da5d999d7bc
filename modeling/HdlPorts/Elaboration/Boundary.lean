import HdlPorts.Declaration.Module
import HdlPorts.Elaboration.Rejection
import HdlPorts.Netlist.Signal

/-! What a port adds to the boundary of an entity: signals of a signal type.

An input or output port becomes one signal. An inout port becomes an input of the same name and an
output that is named by the port and the companion suffix.
-/

set_option autoImplicit false

namespace HdlPorts

/-- The signal type of a declared type, or what to call a type that has none. -/
def PortType.signalType : PortType → Except String SignalType
  | .bit | .logic => .ok .bit
  | .bitVector width signed => packed .bit width signed
  | .logicVector width signed => packed .logic width signed
  | .byte => .ok ⟨8, true⟩
  | .shortint => .ok ⟨16, true⟩
  | .int | .integer => .ok ⟨32, true⟩
  | .longint => .ok ⟨64, true⟩
  | type@.real | type@.string | type@(.named _) => .error type.keyword
where
  /-- A packed vector, which has to have a bit. -/
  packed (element : PortType) (width : UInt32) (signed : Bool) : Except String SignalType :=
    if width = 0 then .error (element.keyword ++ " [-1:0]") else .ok ⟨width, signed⟩

structure Halves where
  input : Option Signal
  output : Option Signal
  deriving DecidableEq

namespace Port

def signalType (port : Port) (site : Site) : Attempt Rejection SignalType :=
  match port.type.signalType with
  | .ok type => .ok type
  | .error text => .refuse (.unsupportedType site text)

def companionName (name suffix : String) : String := name ++ suffix

/-- The signals of a port, entering the companion's name into the table. -/
def split (port : Port) (type : SignalType) (suffix : String) (names : Names) :
    Checked (Halves × Names) :=
  match port.direction with
  | .input => .ok (⟨some (.input port.name type port.span), none⟩, names)
  | .output => .ok (⟨none, some (.output port.name type port.span)⟩, names)
  | .inout => do
    let text ← names.text port.name
    let (companion, names) := names.intern (companionName text suffix)
    return (⟨some (.input port.name type port.span),
      some (.companion companion port.name type port.span)⟩, names)

end Port

end HdlPorts
