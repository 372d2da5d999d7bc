import HdlPorts.Toml.Value

/-! Adding to a table.

A key gets a value once, and only tables grow after that. A dotted key goes through tables made by
dotted keys and through no others; a header goes through any table that is not written out in
braces, and in an array of tables through the last one. A header may open a table once, also one
that is there for the sake of a table inside it.
-/

set_option autoImplicit false

namespace HdlPorts.Toml

/-- A statement of a document. -/
inductive Statement where
  | pair (key : List String) (value : Value)
  /-- A header in brackets. -/
  | header (key : List String)
  /-- A header in double brackets. -/
  | row (key : List String)

namespace Members

/-- The table with the value under a key that is there replaced. -/
def put (members : Members) (key : String) (value : Value) : Members :=
  members.map fun member => if member.1 == key then (key, value) else member

/-- Add a value under a dotted key. -/
def insert? (value : Value) : List String → Members → Option Members
  | [], _ => none
  | [key], members =>
    match members.lookup key with
    | none => some (members ++ [(key, value)])
    | some _ => none
  | key :: rest, members =>
    match members.lookup key with
    | none => do
      let inner ← insert? value rest []
      return members ++ [(key, .table .dotted inner)]
    | some (.table .dotted inner) => do
      let inner ← insert? value rest inner
      return members.put key (.table .dotted inner)
    | some _ => none

/-- Change the table that a path of headers leads to. -/
def within? (change : Members → Option Members) : List String → Members → Option Members
  | [], members => change members
  | key :: rest, members =>
    match members.lookup key with
    | none => do
      let inner ← within? change rest []
      return members ++ [(key, .table .implied inner)]
    | some (.table .inline _) => none
    | some (.table origin inner) => do
      let inner ← within? change rest inner
      return members.put key (.table origin inner)
    | some (.rows earlier last) => do
      let last ← within? change rest last
      return members.put key (.rows earlier last)
    | some _ => none

/-- Open a table by its header. -/
def openTable? (key : String) (members : Members) : Option Members :=
  match members.lookup key with
  | none => some (members ++ [(key, .table .header [])])
  | some (.table .implied inner) => some (members.put key (.table .header inner))
  | some _ => none

/-- Open the next table of an array of tables. -/
def openRow? (key : String) (members : Members) : Option Members :=
  match members.lookup key with
  | none => some (members ++ [(key, .rows [] [])])
  | some (.rows earlier last) => some (members.put key (.rows (earlier ++ [last]) []))
  | some _ => none

/-- Add what the statements say to a document, where `current` leads to the table that was opened
last. -/
def addAll? (current : List String) : List Statement → Members → Option Members
  | [], members => some members
  | .pair key value :: rest, members => do
    let members ← members.within? (insert? value key) current
    addAll? current rest members
  | .header key :: rest, members => do
    let last ← key.getLast?
    let members ← members.within? (openTable? last) key.dropLast
    addAll? key rest members
  | .row key :: rest, members => do
    let last ← key.getLast?
    let members ← members.within? (openRow? last) key.dropLast
    addAll? key rest members

end Members

end HdlPorts.Toml
