import HdlPorts.Bits.Vector
import HdlPorts.Json.Shape

/-! Bits and vectors as documents.

A vector is written with its words as they are, and read the same way: its width and its words are
not compared.
-/

set_option autoImplicit false

namespace HdlPorts

namespace Logic

def tag : Logic → String
  | zero => "Zero"
  | one => "One"
  | x => "X"
  | z => "Z"

def ofTag? : String → Option Logic
  | "Zero" => some zero
  | "One" => some one
  | "X" => some x
  | "Z" => some z
  | _ => none

def toJson (bit : Logic) : Json := .text bit.tag

def ofJson? (depth : Nat) (json : Json) : Option Logic := json.tag? depth >>= ofTag?

end Logic

namespace LogicVector

def toJson (v : LogicVector) : Json :=
  .fields [
    ("width", .natural v.width),
    ("words", .ofList (fun word : UInt64 => .natural word.toNat) v.words)]

def ofJson? (depth : Nat) (json : Json) : Option LogicVector := do
  let (depth, [width, words]) ← json.record? ["width", "words"] depth | none
  let width ← width >>= Json.below? UInt32.size
  let words ← words >>= Json.list? (fun _ => Json.uint64?) depth
  return ⟨width, words⟩

end LogicVector

end HdlPorts
