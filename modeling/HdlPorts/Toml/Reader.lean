import HdlPorts.Toml.Members
import HdlPorts.Toml.Moment
import HdlPorts.Toml.Number
import HdlPorts.Toml.Text

/-! Reading TOML texts.

A document is a sequence of lines, each with at most one statement: a key and its value, or the
header of the table that the pairs below it belong to. Only arrays and tripled quotes may go over
several lines.
-/

set_option autoImplicit false

namespace HdlPorts.Toml

/-- How deep values may be nested, and how many parts a key may have. -/
def maxDepth : Nat := 79

def isBare (char : Char) : Bool := char.isAlphanum || char == '_' || char == '-'

/-- One part of a key: a word or a text in quotes. -/
def part? : List Char → Option (String × List Char)
  | '\x22' :: rest => do
    let (chars, rest) ← basic? rest
    return (String.ofList chars, rest)
  | '\x27' :: rest => do
    let (chars, rest) ← literal? rest
    return (String.ofList chars, rest)
  | chars =>
    match chars.takeWhile isBare with
    | [] => none
    | word => some (String.ofList word, chars.dropWhile isBare)

/-- Up to so many parts with dots between them, and what follows them and the blanks after them. -/
def parts? : Nat → List Char → Option (List String × List Char)
  | 0, _ => none
  | count + 1, chars => do
    let (part, rest) ← part? (skipBlanks chars)
    match skipBlanks rest with
    | '.' :: rest =>
      let (parts, rest) ← parts? count rest
      return (part :: parts, rest)
    | rest => return ([part], rest)

def key? (chars : List Char) : Option (List String × List Char) := parts? maxDepth chars

/-- Without the blanks, newlines and comments in front. A comment, in which `inComment` says we
are, goes on to the end of its line. -/
def skipLines? (inComment : Bool) : List Char → Option (List Char)
  | [] => if inComment then none else some []
  | '\n' :: rest => skipLines? false rest
  | '\r' :: '\n' :: rest => skipLines? false rest
  | char :: rest =>
    if inComment then if isPlain char then skipLines? true rest else none
    else if isBlank char then skipLines? false rest
    else if char == '#' then skipLines? true rest
    else some (char :: rest)

/-- The characters of numbers, dates, times and the words for truth values. -/
def isScalarChar (char : Char) : Bool :=
  char.isAlphanum || char == '_' || char == '+' || char == '-' || char == '.' || char == ':'

/-- The value written by such characters. -/
def scalar? (chars : List Char) : Option Value :=
  if chars = ['t', 'r', 'u', 'e'] then some (.bool true)
  else if chars = ['f', 'a', 'l', 's', 'e'] then some (.bool false)
  else if isMoment chars || isFloat chars then some .other
  else (integer? chars).map .integer

/-- A value without quotes or brackets. A blank may stand between a date and a time. -/
def bare? (chars : List Char) : Option (Value × List Char) :=
  let word := chars.takeWhile isScalarChar
  let rest := chars.dropWhile isScalarChar
  match isDate word, rest with
  | true, ' ' :: more =>
    if isTimeOfDay (more.takeWhile isScalarChar) then
      some (.other, more.dropWhile isScalarChar)
    else
      some (.other, rest)
  | _, _ => (scalar? word).map fun value => (value, rest)

mutual

/-- A value and what follows it. The first number bounds the steps, the second the nesting. -/
def value? : Nat → Nat → List Char → Option (Value × List Char)
  | 0, _, _ => none
  | _ + 1, 0, '[' :: _ => none
  | steps + 1, depth + 1, '[' :: rest => do
    let (items, rest) ← items? steps depth rest
    return (.array items, rest)
  | _ + 1, 0, '\x7b' :: _ => none
  | steps + 1, depth + 1, '\x7b' :: rest =>
    match skipBlanks rest with
    | '\x7d' :: rest => some (.table .inline [], rest)
    | rest => do
      let (members, rest) ← members? steps depth [] rest
      return (.table .inline members, rest)
  | _ + 1, _, chars =>
    match text? chars with
    | some (text, rest) => some (.text text, rest)
    | none => bare? chars

def items? : Nat → Nat → List Char → Option (List Value × List Char)
  | 0, _, _ => none
  | steps + 1, depth, chars => do
    match ← skipLines? false chars with
    | ']' :: rest => return ([], rest)
    | chars =>
      let (item, rest) ← value? steps depth chars
      match ← skipLines? false rest with
      | ']' :: rest => return ([item], rest)
      | ',' :: rest =>
        let (items, rest) ← items? steps depth rest
        return (item :: items, rest)
      | _ => none

/-- Pairs up to the closing brace, at least one, added to the members before them. -/
def members? : Nat → Nat → Members → List Char → Option (Members × List Char)
  | 0, _, _, _ => none
  | steps + 1, depth, members, chars => do
    let (key, rest) ← key? chars
    match rest with
    | '=' :: rest =>
      let (value, rest) ← value? steps depth (skipBlanks rest)
      let members ← members.insert? value key
      match skipBlanks rest with
      | '\x7d' :: rest => return (members, rest)
      | ',' :: rest => members? steps depth members rest
      | _ => none
    | _ => none

end

def statement? : List Char → Option (Statement × List Char)
  | '[' :: '[' :: rest => do
    let (key, rest) ← key? rest
    match rest with
    | ']' :: ']' :: rest => return (.row key, rest)
    | _ => none
  | '[' :: rest => do
    let (key, rest) ← key? rest
    match rest with
    | ']' :: rest => return (.header key, rest)
    | _ => none
  | chars => do
    let (key, rest) ← key? chars
    match rest with
    | '=' :: rest =>
      let (value, rest) ← value? (2 * rest.length + 2) maxDepth (skipBlanks rest)
      return (.pair key value, rest)
    | _ => none

/-- What follows the end of a line, before which blanks and a comment may stand. -/
def lineEnd? (chars : List Char) : Option (List Char) :=
  let rest := match skipBlanks chars with
    | '#' :: comment => comment.dropWhile isPlain
    | rest => rest
  match rest with
  | [] => some []
  | _ => newline? rest

/-- The statements on at most so many lines. -/
def statements? : Nat → List Char → Option (List Statement)
  | 0, _ => none
  | lines + 1, chars =>
    match lineEnd? chars with
    | some [] => some []
    | some rest => statements? lines rest
    | none => do
      let (statement, rest) ← statement? (skipBlanks chars)
      let rest ← lineEnd? rest
      let statements ← statements? lines rest
      return statement :: statements

/-- Without a byte order mark in front. -/
def dropMark : List Char → List Char
  | '\uFEFF' :: rest => rest
  | chars => chars

def parse? (text : String) : Option Members := do
  let chars := dropMark text.toList
  let statements ← statements? (chars.length + 1) chars
  Members.addAll? [] statements []

end HdlPorts.Toml
