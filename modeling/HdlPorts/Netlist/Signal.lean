import HdlPorts.Names
import HdlPorts.Netlist.Arena
import HdlPorts.Bits.Vector
import HdlPorts.Source.Span

/-! Signals of an entity and the constants that drive them.

A signal goes one way. A port that goes both ways becomes an input and an output, its companion,
which remembers the port it came from.
-/

set_option autoImplicit false

namespace HdlPorts

/-- A number of bits, and whether they are read as a signed number later on. -/
structure SignalType where
  width : UInt32
  signed : Bool
  deriving DecidableEq

namespace SignalType

def bit : SignalType := ⟨1, false⟩

/-- The printed form, which does not show the sign. -/
def text (type : SignalType) : String := "i" ++ toString type.width.toNat

end SignalType

inductive Role where
  | input
  | output
  deriving DecidableEq

structure Signal where
  name : Name
  type : SignalType
  role : Role
  /-- The port whose output half this signal is. -/
  companionOf : Option Name
  span : Span
  deriving DecidableEq

namespace Signal

def input (name : Name) (type : SignalType) (span : Span) : Signal :=
  ⟨name, type, .input, none, span⟩

def output (name : Name) (type : SignalType) (span : Span) : Signal :=
  ⟨name, type, .output, none, span⟩

/-- The output half of the port `port`. -/
def companion (name port : Name) (type : SignalType) (span : Span) : Signal :=
  ⟨name, type, .output, some port, span⟩

def isCompanion (signal : Signal) : Bool := signal.companionOf.isSome

end Signal

abbrev SignalId := Slot Signal

structure Drive where
  target : SignalId
  value : LogicVector
  span : Span
  deriving DecidableEq

end HdlPorts
