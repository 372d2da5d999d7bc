/-! JSON documents and their compact text.

A document keeps what a reader can ask for. Numbers other than natural ones, and strings whose
escapes leave half of a surrogate pair, have no value here; each is written as one representative
that reads back the same. Members of an object keep their order and may repeat.
-/

set_option autoImplicit false

namespace HdlPorts

inductive Json where
  | null
  | bool (value : Bool)
  /-- A natural number, or some other number. -/
  | number (value : Option Nat)
  /-- A text, or a string that is none. -/
  | string (value : Option String)
  | array (items : List Json)
  | object (members : List (Option String × Json))

namespace Json

def natural (value : Nat) : Json := number (some value)

def text (value : String) : Json := string (some value)

def fields (members : List (String × Json)) : Json :=
  object (members.map fun (key, value) => (some key, value))

/-- One character inside a string. -/
def escape (char : Char) : List Char :=
  if char = '\x22' then ['\x5c', '\x22']
  else if char = '\x5c' then ['\x5c', '\x5c']
  else if char = '\x08' then ['\x5c', 'b']
  else if char = '\x09' then ['\x5c', 't']
  else if char = '\x0a' then ['\x5c', 'n']
  else if char = '\x0c' then ['\x5c', 'f']
  else if char = '\x0d' then ['\x5c', 'r']
  else if char.toNat < 32 then
    ['\x5c', 'u', '0', '0', Nat.digitChar (char.toNat / 16), Nat.digitChar (char.toNat % 16)]
  else [char]

def quoted : Option String → List Char
  | some value => '\x22' :: value.toList.flatMap escape ++ ['\x22']
  | none => ['\x22', '\x5c', 'u', 'd', '8', '0', '0', '\x22']

mutual

/-- The characters of a document, without any blanks. -/
def chars : Json → List Char
  | null => ['n', 'u', 'l', 'l']
  | bool true => ['t', 'r', 'u', 'e']
  | bool false => ['f', 'a', 'l', 's', 'e']
  | number (some value) => Nat.toDigits 10 value
  | number none => ['-', '1']
  | string value => quoted value
  | array items => '[' :: itemChars items ++ [']']
  | object members => '\x7b' :: memberChars members ++ ['\x7d']

def itemChars : List Json → List Char
  | [] => []
  | [item] => chars item
  | item :: rest => chars item ++ ',' :: itemChars rest

def memberChars : List (Option String × Json) → List Char
  | [] => []
  | [(key, value)] => quoted key ++ ':' :: chars value
  | (key, value) :: rest => quoted key ++ ':' :: chars value ++ ',' :: memberChars rest

end

def compact (json : Json) : String := String.ofList json.chars

end Json

end HdlPorts
