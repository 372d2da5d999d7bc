import HdlPorts.Bits.Text
import HdlPorts.Text.Hexadecimal

/-! Literals of port initializers.

A literal is a plain decimal number; a based one such as `8'hF0` or `'b10x`, with a size or without;
or a fill such as `'1`, which takes the width of what it is assigned to. Underscores may stand
anywhere and mean nothing.

The digits of a based literal are expanded to bits, highest first. With a size, leading zeros in
excess of it are dropped and missing bits are filled in: with `x` or `z` if the first bit is one of
these, with zeros otherwise.
-/

set_option autoImplicit false

namespace HdlPorts

inductive Literal where
  /-- A plain number, as wide as it has to be. -/
  | unsized (number : UInt64)
  /-- A bit pattern with a width of its own. -/
  | sized (bits : LogicVector)
  /-- One bit for every bit of the target. -/
  | fill (bit : Logic)
  deriving DecidableEq

/-- Bits needed to write a number; zero takes one. -/
def minimalWidth (number : Nat) : Nat := if number = 0 then 1 else number.log2 + 1

namespace Literal

/-- The width of a literal, which a fill does not have. -/
def width? : Literal → Option Nat
  | unsized number => some (minimalWidth number.toNat)
  | sized bits => some bits.width
  | fill _ => none

/-- An unsigned decimal number below `limit`. A plus sign may stand in front of the digits. -/
def decimal? (limit : Nat) (chars : List Char) : Option Nat :=
  let digits := match chars with
    | '+' :: rest => rest
    | _ => chars
  if digits.isEmpty then none
  else if digits.all Char.isDigit then
    let number := Nat.ofDigitChars 10 digits 0
    if number < limit then some number else none
  else none

/-- The lowest `count` binary digits of a number, highest first. -/
def highFirst (count number : Nat) : List Logic := (LogicVector.binary number count).reverse

/-- The bits of one digit that stands for `count` bits. -/
def digitBits? (count : Nat) (char : Char) : Option (List Logic) :=
  match Logic.ofChar? char with
  | some .x => some (List.replicate count .x)
  | some .z => some (List.replicate count .z)
  | _ =>
    match Hexadecimal.digit? char with
    | some value => if value < 1 <<< count then some (highFirst count value) else none
    | none => none

def expand? (count : Nat) (digits : List Char) : Option (List Logic) :=
  (digits.mapM (digitBits? count)).map List.flatten

/-- What the places above the given bits hold. -/
def padding : List Logic → Logic
  | .x :: _ => .x
  | .z :: _ => .z
  | _ => .zero

/-- Bits, highest first, as a vector of the given size, or of their own length if none is given.
Only zeros are dropped. -/
def fit? (size : Option Nat) (bits : List Logic) : Option LogicVector :=
  match size with
  | none => some (.ofBits bits.reverse)
  | some size =>
    if size < bits.length then
      if (bits.take (bits.length - size)).all (· == .zero) then
        some (.ofBits (bits.drop (bits.length - size)).reverse)
      else
        none
    else
      some (.ofBits (List.replicate (size - bits.length) (padding bits) ++ bits).reverse)

/-- A decimal number as a vector of the given size, or as wide as it has to be. -/
def fitNumber? (size : Option Nat) (number : Nat) : Option LogicVector :=
  let width := size.getD (minimalWidth number)
  if minimalWidth number ≤ width then some (.ofUInt64 (UInt64.ofNat number) width) else none

def based? (size : Option Nat) : List Char → Option LogicVector
  | [] => none
  | mark :: digits =>
    if digits.isEmpty then none
    else match mark with
      | 'b' | 'B' => expand? 1 digits >>= fit? size
      | 'o' | 'O' => expand? 3 digits >>= fit? size
      | 'h' | 'H' => expand? 4 digits >>= fit? size
      | 'd' | 'D' => decimal? UInt64.size digits >>= fitNumber? size
      | _ => none

/-- The size in front of the quote: nothing, or a number that is not zero. -/
def size? : List Char → Option (Option Nat)
  | [] => some none
  | chars =>
    match decimal? UInt32.size chars with
    | some 0 | none => none
    | some size => some (some size)

/-- Without the mark of a signed literal, which changes nothing. -/
def dropSigned : List Char → List Char
  | 's' :: rest => rest
  | 'S' :: rest => rest
  | chars => chars

/-- What stands before and after the first quote. -/
def splitQuote? (chars : List Char) : Option (List Char × List Char) :=
  match chars.dropWhile (· != LogicVector.quote) with
  | [] => none
  | _ :: rest => some (chars.takeWhile (· != LogicVector.quote), rest)

/-- Read the characters of a literal, underscores left out. -/
def read? (chars : List Char) : Option Literal :=
  match splitQuote? chars with
  | none => (decimal? UInt64.size chars).map fun number => unsized (UInt64.ofNat number)
  | some ([], [digit]) => (Logic.ofChar? digit).map fill
  | some (size, rest) => do
    let size ← size? size
    let bits ← based? size (dropSigned rest)
    return sized bits

def parse? (text : String) : Option Literal := read? (text.toList.filter (· != '_'))

end Literal

end HdlPorts
