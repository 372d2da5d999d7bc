import HdlPorts.Declaration.Expression
import HdlPorts.Names
import HdlPorts.Source.Span

/-! Module declarations: a name and its ports, in the order in which they are declared. -/

set_option autoImplicit false

namespace HdlPorts

inductive Direction where
  | input
  | output
  | inout
  deriving DecidableEq

def Direction.keyword : Direction → String
  | .input => "input"
  | .output => "output"
  | .inout => "inout"

inductive PortType where
  | bit
  | logic
  | bitVector (width : UInt32) (signed : Bool)
  | logicVector (width : UInt32) (signed : Bool)
  | byte
  | shortint
  | int
  | longint
  | integer
  | real
  | string
  /-- A type that is defined elsewhere. -/
  | named (name : Name)
  deriving DecidableEq

namespace PortType

/-- The bits of a two-state type are never `x` or `z`, so it starts out as zero. -/
def isTwoState : PortType → Bool
  | bit | bitVector .. | byte | shortint | int | longint => true
  | logic | logicVector .. | integer | real | string | named _ => false

def keyword : PortType → String
  | bit | bitVector .. => "bit"
  | logic | logicVector .. => "logic"
  | byte => "byte"
  | shortint => "shortint"
  | int => "int"
  | longint => "longint"
  | integer => "integer"
  | real => "real"
  | string => "string"
  | named _ => "named type"

end PortType

structure Port where
  name : Name
  direction : Direction
  type : PortType
  initializer : Option Expression := none
  span : Span := .dummy

/-- A module without its body. -/
structure Module where
  name : Name
  ports : List Port
  span : Span := .dummy

def Module.inoutCount (m : Module) : Nat := m.ports.countP (·.direction == .inout)

end HdlPorts
