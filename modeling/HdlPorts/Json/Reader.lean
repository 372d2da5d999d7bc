import HdlPorts.Json.Value
import HdlPorts.Text.Hexadecimal

/-! Reading JSON texts.

Blanks may stand around values and marks. Numbers have no leading zeros; strings have no raw control
characters. After the document only blanks may follow.
-/

set_option autoImplicit false

namespace HdlPorts.Json

def isBlank (char : Char) : Bool := char == ' ' || char == '\n' || char == '\t' || char == '\r'

def skipBlanks (chars : List Char) : List Char := chars.dropWhile isBlank

/-- A part of a string: a character, or sixteen bits given by number. -/
inductive Piece where
  | char (value : Char)
  | unit (value : Nat)

def unescape? : Char → Option Char
  | '\x22' => some '\x22'
  | '\x5c' => some '\x5c'
  | '/' => some '/'
  | 'b' => some '\x08'
  | 'f' => some '\x0c'
  | 'n' => some '\x0a'
  | 'r' => some '\x0d'
  | 't' => some '\x09'
  | _ => none

/-- The pieces of a string up to its closing quote, and what follows the quote. -/
def pieces? : List Char → Option (List Piece × List Char)
  | [] => none
  | '\x22' :: rest => some ([], rest)
  | '\x5c' :: 'u' :: a :: b :: c :: d :: rest => do
    let value ← Hexadecimal.number? [a, b, c, d]
    let (pieces, rest) ← pieces? rest
    return (.unit value :: pieces, rest)
  | '\x5c' :: letter :: rest => do
    let value ← unescape? letter
    let (pieces, rest) ← pieces? rest
    return (.char value :: pieces, rest)
  | value :: rest =>
    if value.toNat < 32 || value == '\x5c' then none
    else do
      let (pieces, rest) ← pieces? rest
      return (.char value :: pieces, rest)

def isHighSurrogate (unit : Nat) : Bool := 0xD800 ≤ unit && unit < 0xDC00

def isLowSurrogate (unit : Nat) : Bool := 0xDC00 ≤ unit && unit < 0xE000

/-- The characters of a string. Two halves of a surrogate pair make one character; one half alone
makes none. -/
def join? : List Piece → Option (List Char)
  | [] => some []
  | .char value :: rest => (join? rest).map (value :: ·)
  | .unit high :: .unit low :: rest =>
    if isHighSurrogate high then
      if isLowSurrogate low then do
        let value ← Hexadecimal.char? (0x10000 + (high - 0xD800) * 0x400 + (low - 0xDC00))
        let chars ← join? rest
        return value :: chars
      else none
    else do
      let value ← Hexadecimal.char? high
      let chars ← join? (.unit low :: rest)
      return value :: chars
  | .unit value :: rest => do
    let value ← Hexadecimal.char? value
    let chars ← join? rest
    return value :: chars

/-- The rest of a string after its opening quote. -/
def string? (chars : List Char) : Option (Option String × List Char) := do
  let (pieces, rest) ← pieces? chars
  return ((join? pieces).map String.ofList, rest)

def digits? (chars : List Char) : Option (List Char × List Char) :=
  match chars.takeWhile Char.isDigit with
  | [] => none
  | digits => some (digits, chars.dropWhile Char.isDigit)

/-- The digits of a whole number, which do not begin with a zero they could do without. -/
def whole? (chars : List Char) : Option (List Char × List Char) :=
  match digits? chars with
  | some ('0' :: _ :: _, _) => none
  | result => result

/-- Skip a fraction, if there is one. Says whether there was. -/
def fraction? : List Char → Option (Bool × List Char)
  | '.' :: rest => (digits? rest).map fun (_, rest) => (true, rest)
  | chars => some (false, chars)

/-- Skip an exponent, if there is one. Says whether there was. -/
def exponent? : List Char → Option (Bool × List Char)
  | 'e' :: rest | 'E' :: rest =>
    let rest := match rest with
      | '+' :: rest | '-' :: rest => rest
      | _ => rest
    (digits? rest).map fun (_, rest) => (true, rest)
  | chars => some (false, chars)

/-- A number without its sign: its value, if it is a whole one. -/
def unsigned? (chars : List Char) : Option (Option Nat × List Char) := do
  let (digits, rest) ← whole? chars
  let (hasFraction, rest) ← fraction? rest
  let (hasExponent, rest) ← exponent? rest
  return (if hasFraction || hasExponent then none else some (Nat.ofDigitChars 10 digits 0), rest)

/-- A number. One with a sign has no value, not even zero. -/
def number? : List Char → Option (Json × List Char)
  | '-' :: rest => do
    let (_, rest) ← unsigned? rest
    return (.number none, rest)
  | chars => do
    let (value, rest) ← unsigned? chars
    return (.number value, rest)

mutual

/-- A document and what follows it. The first number bounds the steps. -/
def value? : Nat → List Char → Option (Json × List Char)
  | 0, _ => none
  | steps + 1, chars =>
    match skipBlanks chars with
    | 'n' :: 'u' :: 'l' :: 'l' :: rest => some (.null, rest)
    | 't' :: 'r' :: 'u' :: 'e' :: rest => some (.bool true, rest)
    | 'f' :: 'a' :: 'l' :: 's' :: 'e' :: rest => some (.bool false, rest)
    | '\x22' :: rest => do
      let (value, rest) ← string? rest
      return (.string value, rest)
    | '[' :: rest =>
      match skipBlanks rest with
      | ']' :: rest => some (.array [], rest)
      | rest => do
        let (items, rest) ← items? steps rest
        return (.array items, rest)
    | '\x7b' :: rest =>
      match skipBlanks rest with
      | '\x7d' :: rest => some (.object [], rest)
      | rest => do
        let (members, rest) ← members? steps rest
        return (.object members, rest)
    | rest => number? rest

def items? : Nat → List Char → Option (List Json × List Char)
  | 0, _ => none
  | steps + 1, chars => do
    let (item, rest) ← value? steps chars
    match skipBlanks rest with
    | ']' :: rest => return ([item], rest)
    | ',' :: rest =>
      let (items, rest) ← items? steps rest
      return (item :: items, rest)
    | _ => none

def members? : Nat → List Char → Option (List (Option String × Json) × List Char)
  | 0, _ => none
  | steps + 1, chars =>
    match skipBlanks chars with
    | '\x22' :: rest => do
      let (key, rest) ← string? rest
      match skipBlanks rest with
      | ':' :: rest =>
        let (value, rest) ← value? steps rest
        match skipBlanks rest with
        | '\x7d' :: rest => return ([(key, value)], rest)
        | ',' :: rest =>
          let (members, rest) ← members? steps rest
          return ((key, value) :: members, rest)
        | _ => none
      | _ => none
    | _ => none

end

def parse? (text : String) : Option Json := do
  let chars := text.toList
  let (json, rest) ← value? (2 * chars.length + 1) chars
  if rest.all isBlank then some json else none

end HdlPorts.Json
