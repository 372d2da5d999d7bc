import HdlPorts.Source.Span

/-! Reported problems.

A diagnostic has a severity, a stable code such as `E302`, a headline, the place it is about, labels
for that place and for related ones, and lines of notes and help.
-/

set_option autoImplicit false

namespace HdlPorts

inductive Severity where
  | note
  | warning
  | error
  deriving DecidableEq

namespace Severity

def text : Severity → String
  | note => "note"
  | warning => "warning"
  | error => "error"

/-- Position from the least to the most serious. -/
def rank : Severity → Nat
  | note => 0
  | warning => 1
  | error => 2

end Severity

inductive Category where
  | error
  | warning
  deriving DecidableEq

def Category.letter : Category → Char
  | .error => 'E'
  | .warning => 'W'

/-- A family and a number within it. -/
structure Code where
  category : Category
  number : UInt16
  deriving DecidableEq

/-- The letter and the number, which has at least three digits. -/
def Code.text (code : Code) : String :=
  let digits := toString code.number.toNat
  code.category.letter.toString ++ String.ofList (List.replicate (3 - digits.length) '0') ++ digits

/-- Whether a label marks the problem itself or a related place. -/
inductive LabelStyle where
  | primary
  | secondary
  deriving DecidableEq

/-- A message about a place. -/
structure Label where
  span : Span
  message : String
  style : LabelStyle
  deriving DecidableEq

structure Diagnostic where
  severity : Severity
  code : Code
  message : String
  span : Span
  labels : List Label := []
  notes : List String := []
  help : List String := []
  deriving DecidableEq

def Diagnostic.isError (diagnostic : Diagnostic) : Bool := diagnostic.severity == .error

end HdlPorts
