/-! TOML documents: tables of values under keys.

A table remembers how it came about, since that decides what may still be added to it. Floats and
dates are told apart from other values but not from each other.
-/

set_option autoImplicit false

namespace HdlPorts.Toml

/-- How a table came about. -/
inductive Origin where
  /-- By a header of its own. -/
  | header
  /-- By the header of a table inside it. -/
  | implied
  /-- By a dotted key. -/
  | dotted
  /-- Written out in braces. -/
  | inline
  deriving DecidableEq

inductive Value where
  | text (value : String)
  | integer (value : Int)
  | bool (value : Bool)
  /-- A float, a date or a time. -/
  | other
  | array (items : List Value)
  | table (origin : Origin) (members : List (String × Value))
  /-- An array of tables made by headers in double brackets. -/
  | rows (earlier : List (List (String × Value))) (last : List (String × Value))

/-- What stands under the keys of a table, in the order in which it was added. -/
abbrev Members := List (String × Value)

end HdlPorts.Toml
