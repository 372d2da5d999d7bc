/-! The four values of one bit: driven low, driven high, unknown and high impedance.

The operators follow the usual tables of four-state logic: `0` decides a conjunction and `1` a
disjunction whatever the other operand is, and everything else that is not known gives `x`.
-/

set_option autoImplicit false

namespace HdlPorts

inductive Logic where
  | zero
  | one
  | x
  | z
  deriving DecidableEq

namespace Logic

/-- The bit a literal digit stands for; `?` is another way to write `z`. -/
def ofChar? : Char → Option Logic
  | '0' => some zero
  | '1' => some one
  | 'x' | 'X' => some x
  | 'z' | 'Z' | '?' => some z
  | _ => none

def toChar : Logic → Char
  | zero => '0'
  | one => '1'
  | x => 'X'
  | z => 'Z'

def ofBool : Bool → Logic
  | false => zero
  | true => one

/-- Driven low or high. -/
def isKnown : Logic → Bool
  | zero | one => true
  | x | z => false

/-- The two-bit code a bit has inside a packed word. -/
def code : Logic → Nat
  | zero => 0
  | one => 1
  | x => 2
  | z => 3

/-- The bit with a given code; codes from three on all mean `z`. -/
def ofCode : Nat → Logic
  | 0 => zero
  | 1 => one
  | 2 => x
  | _ => z

protected def and : Logic → Logic → Logic
  | zero, _ | _, zero => zero
  | one, one => one
  | _, _ => x

protected def or : Logic → Logic → Logic
  | one, _ | _, one => one
  | zero, zero => zero
  | _, _ => x

protected def xor (a b : Logic) : Logic :=
  if a.isKnown && b.isKnown then ofBool (a != b) else x

protected def not : Logic → Logic
  | zero => one
  | one => zero
  | x | z => x

@[simp] theorem ofCode_code (a : Logic) : ofCode a.code = a := by
  cases a <;> rfl

theorem code_lt (a : Logic) : a.code < 4 := by
  cases a <;> decide

theorem ofChar?_toChar (a : Logic) : ofChar? a.toChar = some a := by
  cases a <;> rfl

end Logic

end HdlPorts
