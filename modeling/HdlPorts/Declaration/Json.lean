import HdlPorts.Bits.Json
import HdlPorts.Declaration.Module
import HdlPorts.Names.Json
import HdlPorts.Source.Json

/-! Declarations as documents.

Names are written as keys. An expression is nested as deep in its document as it is itself, so
reading one is recursion on the depth that is left.
-/

set_option autoImplicit false

namespace HdlPorts

namespace Literal

def toJson : Literal → Json
  | unsized number => .tagged "Unsized" (.natural number.toNat)
  | sized bits => .tagged "Sized" bits.toJson
  | fill bit => .tagged "Fill" bit.toJson

def ofJson? (depth : Nat) (json : Json) : Option Literal := do
  let (depth, tag, some value) ← json.choice? depth | none
  match tag with
  | "Unsized" => value.uint64?.map unsized
  | "Sized" => (LogicVector.ofJson? depth value).map sized
  | "Fill" => (Logic.ofJson? depth value).map fill
  | _ => none

end Literal

namespace BinaryOperator

def tag : BinaryOperator → String
  | and => "And"
  | or => "Or"
  | xor => "Xor"
  | add => "Add"
  | sub => "Sub"

def ofTag? : String → Option BinaryOperator
  | "And" => some and
  | "Or" => some or
  | "Xor" => some xor
  | "Add" => some add
  | "Sub" => some sub
  | _ => none

def toJson (operator : BinaryOperator) : Json := .text operator.tag

def ofJson? (depth : Nat) (json : Json) : Option BinaryOperator := json.tag? depth >>= ofTag?

end BinaryOperator

namespace Expression

mutual

def toJson : Expression → Json
  | literal value => .tagged "Literal" value.toJson
  | not operand => .tagged "Not" (toJson operand)
  | binary operator left right =>
    .tagged "Binary" (.fields
      [("op", operator.toJson), ("lhs", toJson left), ("rhs", toJson right)])
  | concat parts => .tagged "Concat" (.array (partsToJson parts))

def partsToJson : List Expression → List Json
  | [] => []
  | part :: rest => toJson part :: partsToJson rest

end

def ofJson? : Nat → Json → Option Expression
  | depth + 1, .object [(some "Literal", value)] => (Literal.ofJson? depth value).map literal
  | depth + 1, .object [(some "Not", value)] => (ofJson? depth value).map not
  | depth + 2, .object [(some "Binary", value)] => do
    let [operator, left, right] ← value.fields? ["op", "lhs", "rhs"] | none
    let operator ← operator >>= BinaryOperator.ofJson? depth
    let left ← left >>= fun json => ofJson? depth json
    let right ← right >>= fun json => ofJson? depth json
    return binary operator left right
  | depth + 2, .object [(some "Concat", .array parts)] =>
    (parts.mapM fun json => ofJson? depth json).map concat
  | _, _ => none

end Expression

namespace PortType

def packedToJson (width : UInt32) (signed : Bool) : Json :=
  .fields [("width", .natural width.toNat), ("signed", .bool signed)]

def packedOfJson? (depth : Nat) (json : Json) : Option (UInt32 × Bool) := do
  let (_, [width, signed]) ← json.record? ["width", "signed"] depth | none
  let width ← width >>= Json.uint32?
  let signed ← signed >>= Json.bool?
  return (width, signed)

def toJson : PortType → Json
  | bit => .text "Bit"
  | logic => .text "Logic"
  | bitVector width signed => .tagged "BitVector" (packedToJson width signed)
  | logicVector width signed => .tagged "LogicVector" (packedToJson width signed)
  | byte => .text "Byte"
  | shortint => .text "Shortint"
  | int => .text "Int"
  | longint => .text "Longint"
  | integer => .text "Integer"
  | real => .text "Real"
  | string => .text "Str"
  | named name => .tagged "Named" name.toJson

/-- The type that a tag alone stands for. -/
def ofTag? : String → Option PortType
  | "Bit" => some bit
  | "Logic" => some logic
  | "Byte" => some byte
  | "Shortint" => some shortint
  | "Int" => some int
  | "Longint" => some longint
  | "Integer" => some integer
  | "Real" => some real
  | "Str" => some string
  | _ => none

def ofJson? (depth : Nat) (json : Json) : Option PortType := do
  match ← json.choice? depth with
  | (_, tag, none) | (_, tag, some .null) => ofTag? tag
  | (depth, "BitVector", some value) =>
    (packedOfJson? depth value).map fun (width, signed) => bitVector width signed
  | (depth, "LogicVector", some value) =>
    (packedOfJson? depth value).map fun (width, signed) => logicVector width signed
  | (_, "Named", some value) => (Name.ofJson? value).map named
  | _ => none

end PortType

namespace Direction

def tag : Direction → String
  | input => "Input"
  | output => "Output"
  | inout => "Inout"

def ofTag? : String → Option Direction
  | "Input" => some input
  | "Output" => some output
  | "Inout" => some inout
  | _ => none

def toJson (direction : Direction) : Json := .text direction.tag

def ofJson? (depth : Nat) (json : Json) : Option Direction := json.tag? depth >>= ofTag?

end Direction

namespace Port

def toJson (port : Port) : Json :=
  .fields [
    ("name", port.name.toJson),
    ("direction", port.direction.toJson),
    ("ty", port.type.toJson),
    ("default", .orNull Expression.toJson port.initializer),
    ("span", port.span.toJson)]

def ofJson? (depth : Nat) (json : Json) : Option Port := do
  let (depth, [name, direction, type, initializer, span]) ←
    json.record? ["name", "direction", "ty", "default", "span"] depth | none
  let name ← name >>= Name.ofJson?
  let direction ← direction >>= Direction.ofJson? depth
  let type ← type >>= PortType.ofJson? depth
  let initializer ← Json.optional? Expression.ofJson? depth initializer
  let span ← span >>= Span.ofJson? depth
  return ⟨name, direction, type, initializer, span⟩

end Port

namespace Module

def toJson (m : Module) : Json :=
  .fields [
    ("name", m.name.toJson),
    ("ports", .ofList Port.toJson m.ports),
    ("span", m.span.toJson)]

def ofJson? (depth : Nat) (json : Json) : Option Module := do
  let (depth, [name, ports, span]) ← json.record? ["name", "ports", "span"] depth | none
  let name ← name >>= Name.ofJson?
  let ports ← ports >>= Json.list? Port.ofJson? depth
  let span ← span >>= Span.ofJson? depth
  return ⟨name, ports, span⟩

end Module

end HdlPorts
