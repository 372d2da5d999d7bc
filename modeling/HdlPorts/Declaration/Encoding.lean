import HdlPorts.Declaration.Module
import HdlPorts.Digest

/-! Declarations as bytes.

The bytes of a declaration are what its digest is taken of. Everything that was declared is in
them: keys, directions, types, initializers with all their words, and spans. A number takes as few
bytes as its size allows, a choice starts with its position among the alternatives, an optional part
with zero or one, and a list with its length.
-/

set_option autoImplicit false

namespace HdlPorts.Encoding

/-- The lowest `count` bytes of a number, lowest first. -/
def littleEndian : Nat → Nat → List UInt8
  | 0, _ => []
  | count + 1, number => UInt8.ofNat number :: littleEndian count (number / 256)

/-- A number below 2⁶⁴ in one, three, five or nine bytes. -/
def word (number : Nat) : List UInt8 :=
  if number < 251 then [UInt8.ofNat number]
  else if number < UInt16.size then 251 :: littleEndian 2 number
  else if number < UInt32.size then 252 :: littleEndian 4 number
  else 253 :: littleEndian 8 number

/-- Any number: a mark for each time that 2⁶⁴ goes into it, and what is left as a word. -/
def number (n : Nat) : List UInt8 := List.replicate (n / UInt64.size) 254 ++ word (n % UInt64.size)

def flag (value : Bool) : List UInt8 := [if value then 1 else 0]

def optional {α : Type} (encode : α → List UInt8) : Option α → List UInt8
  | none => [0]
  | some value => 1 :: encode value

def sequence {α : Type} (encode : α → List UInt8) (items : List α) : List UInt8 :=
  number items.length ++ items.flatMap encode

def name (name : Name) : List UInt8 := number name.key

def span (span : Span) : List UInt8 :=
  number span.file.toNat ++ number span.start.toNat ++ number span.stop.toNat

def vector (v : LogicVector) : List UInt8 :=
  number v.width ++ sequence (fun w => number (UInt64.toNat w)) v.words

def literal : Literal → List UInt8
  | .unsized value => number 0 ++ number value.toNat
  | .sized bits => number 1 ++ vector bits
  | .fill bit => number 2 ++ number bit.code

def operator : BinaryOperator → List UInt8
  | .and => number 0
  | .or => number 1
  | .xor => number 2
  | .add => number 3
  | .sub => number 4

mutual

def expression : Expression → List UInt8
  | .literal value => number 0 ++ literal value
  | .not operand => number 1 ++ expression operand
  | .binary op left right => number 2 ++ operator op ++ expression left ++ expression right
  | .concat parts => number 3 ++ number parts.length ++ expressions parts

def expressions : List Expression → List UInt8
  | [] => []
  | first :: rest => expression first ++ expressions rest

end

def direction : Direction → List UInt8
  | .input => number 0
  | .output => number 1
  | .inout => number 2

def portType : PortType → List UInt8
  | .bit => number 0
  | .logic => number 1
  | .bitVector width signed => number 2 ++ number width.toNat ++ flag signed
  | .logicVector width signed => number 3 ++ number width.toNat ++ flag signed
  | .byte => number 4
  | .shortint => number 5
  | .int => number 6
  | .longint => number 7
  | .integer => number 8
  | .real => number 9
  | .string => number 10
  | .named key => number 11 ++ name key

def port (p : Port) : List UInt8 :=
  name p.name ++ direction p.direction ++ portType p.type ++ optional expression p.initializer
    ++ span p.span

def declaration (m : Module) : List UInt8 :=
  name m.name ++ sequence port m.ports ++ span m.span

end Encoding

def Module.digest (m : Module) : Digest := .ofBytes (Encoding.declaration m)

end HdlPorts
