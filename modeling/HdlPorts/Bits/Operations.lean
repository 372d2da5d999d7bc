import HdlPorts.Bits.Vector

/-! Operations that make a new vector, and the number a vector stands for.

Each one reads the bits of its operands and packs a list of bits, so nothing above an operand's
width reaches the result.
-/

set_option autoImplicit false

namespace HdlPorts.LogicVector

/-- The bits, followed by zeros up to `width` places. -/
def padded (width : Nat) (bits : List Logic) : List Logic :=
  bits ++ List.replicate (width - bits.length) .zero

/-- Widen to `width` bits with zeros in the new upper places. -/
def extend (v : LogicVector) (width : Nat) : Checked LogicVector :=
  if v.width ≤ width then do
    let bits ← v.bits
    return ofBits (padded width bits)
  else
    .error (.narrowingExtension v.width width)

/-- One vector above the other: `low` has the lowest bits. -/
def append (high low : LogicVector) : Checked LogicVector := do
  let lowBits ← low.bits
  let highBits ← high.bits
  return ofBits (lowBits ++ highBits)

/-- Combine two vectors bit by bit at the larger of their widths. -/
def zipWith (op : Logic → Logic → Logic) (a b : LogicVector) : Checked LogicVector := do
  let width := max a.width b.width
  let left ← (← a.extend width).bits
  let right ← (← b.extend width).bits
  return ofBits (List.zipWith op left right)

def complement (v : LogicVector) : Checked LogicVector := do
  let bits ← v.bits
  return ofBits (bits.map Logic.not)

/-- The lowest `width` binary digits of a number. -/
def binary (number width : Nat) : List Logic :=
  (List.range width).map fun place => Logic.ofBool (number.testBit place)

def ofUInt64 (number : UInt64) (width : Nat) : LogicVector := ofBits (binary number.toNat width)

/-- The number with the given binary digits, lowest first. -/
def number : List Logic → Nat
  | [] => 0
  | bit :: rest => bit.code + 2 * number rest

/-- The vector as a number, when it has at most 64 bits and all of them are known. Reading stops
at the first bit that is not. -/
def toUInt64? (v : LogicVector) : Checked (Option UInt64) :=
  if 64 < v.width then .ok none
  else if v.readable.any (fun bit => !bit.isKnown) then .ok none
  else if v.Complete then .ok (some (UInt64.ofNat (number v.readable)))
  else .error .missingWord

end HdlPorts.LogicVector
