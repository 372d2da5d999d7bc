/-! Hexadecimal digits, and characters given by number. -/

set_option autoImplicit false

namespace HdlPorts.Hexadecimal

def digit? (char : Char) : Option Nat :=
  if '0' ≤ char ∧ char ≤ '9' then some (char.toNat - '0'.toNat)
  else if 'a' ≤ char ∧ char ≤ 'f' then some (char.toNat - 'a'.toNat + 10)
  else if 'A' ≤ char ∧ char ≤ 'F' then some (char.toNat - 'A'.toNat + 10)
  else none

/-- The number written by some digits, highest first. -/
def number? (digits : List Char) : Option Nat :=
  (digits.mapM digit?).map (·.foldl (fun number digit => 16 * number + digit) 0)

/-- The character with a given number, which no half of a surrogate pair has. -/
def char? (number : Nat) : Option Char :=
  if valid : number.isValidChar then some (Char.ofNatAux number valid) else none

end HdlPorts.Hexadecimal
