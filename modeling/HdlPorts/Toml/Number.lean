import HdlPorts.Text.Hexadecimal

/-! Numbers.

Digits may have single underscores between them. A whole number has no leading zeros and may have a
sign, or it has a base mark and no sign; it fits into 64 bits with a sign. A float has a fraction,
an exponent or both, and is not larger than the largest one there is.
-/

set_option autoImplicit false

namespace HdlPorts.Toml

/-- At least one digit, without the single underscores between them. -/
def digits? (isDigit : Char → Bool) : List Char → Option (List Char)
  | [] => none
  | [digit] => if isDigit digit then some [digit] else none
  | digit :: '_' :: rest =>
    if isDigit digit then (digits? isDigit rest).map (digit :: ·) else none
  | digit :: rest =>
    if isDigit digit then (digits? isDigit rest).map (digit :: ·) else none

/-- The digits of a whole number, which do not begin with a zero they could do without. -/
def wholeDigits? (chars : List Char) : Option (List Char) :=
  match digits? Char.isDigit chars with
  | some ('0' :: _ :: _) => none
  | result => result

/-- A number written in a base of at most sixteen. -/
def inBase? (base : Nat) (chars : List Char) : Option Nat := do
  let digits ← digits? (fun char => (Hexadecimal.digit? char).any (· < base)) chars
  let values ← digits.mapM Hexadecimal.digit?
  return values.foldl (fun number digit => base * number + digit) 0

/-- The numbers that fit. -/
def within64? (number : Int) : Option Int :=
  if Int64.minValue.toInt ≤ number ∧ number ≤ Int64.maxValue.toInt then some number else none

/-- Whether there is a minus sign, and what follows the sign. -/
def sign : List Char → Bool × List Char
  | '+' :: rest => (false, rest)
  | '-' :: rest => (true, rest)
  | chars => (false, chars)

def integer? : List Char → Option Int
  | '0' :: 'x' :: digits => (inBase? 16 digits).map Int.ofNat >>= within64?
  | '0' :: 'o' :: digits => (inBase? 8 digits).map Int.ofNat >>= within64?
  | '0' :: 'b' :: digits => (inBase? 2 digits).map Int.ofNat >>= within64?
  | chars => do
    let (negative, digits) := sign chars
    let digits ← wholeDigits? digits
    let number : Int := Nat.ofDigitChars 10 digits 0
    within64? (if negative then -number else number)

/-- The least number that a float rounds to infinity: it is halfway between the largest float and
the power of two above. -/
def floatLimit : Nat := 1 <<< 1024 - 1 <<< 970

/-- A decimal number, given by its digits and the power of ten that scales them, is too large for a
float. -/
def overflows (number : Nat) (scale : Int) : Bool :=
  let size : Int := (Nat.toDigits 10 number).length + scale
  if number = 0 ∨ size < 300 then false
  else if 400 < size then true
  else if 0 ≤ scale then floatLimit ≤ number * Nat.pow 10 scale.toNat
  else floatLimit * Nat.pow 10 (-scale).toNat ≤ number

/-- The value of an exponent with its mark in front; zero if there is none. -/
def exponent? : List Char → Option Int
  | [] => some 0
  | _ :: chars => do
    let (negative, digits) := sign chars
    let digits ← digits? Char.isDigit digits
    let number : Int := Nat.ofDigitChars 10 digits 0
    return if negative then -number else number

def isExponentMark (char : Char) : Bool := char == 'e' || char == 'E'

/-- The digits of a fraction with its point in front; none if there is no fraction. -/
def fraction? : List Char → Option (List Char)
  | [] => some []
  | _ :: digits => digits? Char.isDigit digits

def isFloat (chars : List Char) : Bool :=
  let (negative, chars) := sign chars
  if chars = ['i', 'n', 'f'] ∨ chars = ['n', 'a', 'n'] then true
  else
    let scaled := chars.takeWhile (fun char => !isExponentMark char)
    let exponent := chars.dropWhile (fun char => !isExponentMark char)
    let whole := scaled.takeWhile (· != '.')
    let fraction := scaled.dropWhile (· != '.')
    if fraction.isEmpty && exponent.isEmpty then false
    else
      match wholeDigits? whole, fraction? fraction, exponent? exponent with
      | some whole, some fraction, some exponent =>
        negative ||
          !overflows (Nat.ofDigitChars 10 (whole ++ fraction) 0) (exponent - fraction.length)
      | _, _, _ => false

end HdlPorts.Toml
