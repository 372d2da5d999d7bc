import HdlPorts.Json.Reader

/-! The shapes that values have as documents.

A record is an object with its fields as members, or an array of all of them in order. Other members
are passed over. A choice is a tag alone, or an object whose only member is the tag with what goes
with it. Documents may be nested to a certain depth only, in so far as they are looked at: the depth
that is left is handed down, and each array or object that is entered takes one off it.
-/

set_option autoImplicit false

namespace HdlPorts.Json

variable {α : Type}

/-- How deep arrays and objects may be nested. -/
def maxDepth : Nat := 127

def below? (limit : Nat) : Json → Option Nat
  | number (some value) => if value < limit then some value else none
  | _ => none

def uint8? (json : Json) : Option UInt8 := (json.below? UInt8.size).map UInt8.ofNat

def uint16? (json : Json) : Option UInt16 := (json.below? UInt16.size).map UInt16.ofNat

def uint32? (json : Json) : Option UInt32 := (json.below? UInt32.size).map UInt32.ofNat

def uint64? (json : Json) : Option UInt64 := (json.below? UInt64.size).map UInt64.ofNat

def bool? : Json → Option Bool
  | bool value => some value
  | _ => none

def text? : Json → Option String
  | string value => value
  | _ => none

def list? (decode : Nat → Json → Option α) : Nat → Json → Option (List α)
  | depth + 1, array items => items.mapM (decode depth)
  | _, _ => none

/-- A field that may be missing or null. -/
def optional? (decode : Nat → Json → Option α) (depth : Nat) : Option Json → Option (Option α)
  | none | some null => some none
  | some json => (decode depth json).map some

/-- The members of an object, if all their keys are texts. -/
def named? : List (Option String × Json) → Option (List (String × Json))
  | [] => some []
  | (some key, value) :: rest => (named? rest).map ((key, value) :: ·)
  | (none, _) :: _ => none

/-- The value of a field, if it has one. Two are refused. -/
def field? (members : List (String × Json)) (key : String) : Option (Option Json) :=
  match members.filter (·.1 == key) with
  | [] => some none
  | [(_, value)] => some (some value)
  | _ => none

def fields? (keys : List String) : Json → Option (List (Option Json))
  | array items => if items.length = keys.length then some (items.map some) else none
  | object members => do
    let members ← named? members
    keys.mapM (field? members)
  | _ => none

/-- The fields of a record, in order, and the depth that is left for them. -/
def record? (keys : List String) : Nat → Json → Option (Nat × List (Option Json))
  | depth + 1, json => (json.fields? keys).map (depth, ·)
  | 0, _ => none

/-- The tag of a choice, what goes with it, and the depth that is left for that. -/
def choice? : Nat → Json → Option (Nat × String × Option Json)
  | depth, string (some tag) => some (depth, tag, none)
  | depth + 1, object [(some tag, value)] => some (depth, tag, some value)
  | _, _ => none

/-- The tag of a choice with which nothing goes, or null. -/
def tag? (depth : Nat) (json : Json) : Option String :=
  match json.choice? depth with
  | some (_, tag, none) | some (_, tag, some null) => some tag
  | _ => none

def tagged (tag : String) (value : Json) : Json := fields [(tag, value)]

def orNull (encode : α → Json) : Option α → Json
  | some value => encode value
  | none => null

def ofList (encode : α → Json) (items : List α) : Json := array (items.map encode)

/-- The value that a text is the document of. -/
def read? (decode : Nat → Json → Option α) (text : String) : Option α :=
  parse? text >>= decode maxDepth

end HdlPorts.Json
