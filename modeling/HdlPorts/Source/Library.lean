import HdlPorts.Source.Lines
import HdlPorts.Source.Span

/-! The source texts of one run, numbered in the order in which they were added. -/

set_option autoImplicit false

namespace HdlPorts

/-- Source texts by number. -/
structure Sources where
  files : List SourceText

/-- Where a span starts, ready to be printed. -/
structure Location where
  path : String
  line : Nat
  column : Nat
  deriving DecidableEq

def Location.text (location : Location) : String :=
  location.path ++ ":" ++ toString location.line ++ ":" ++ toString location.column

namespace Sources

def file? (sources : Sources) (number : UInt32) : Option SourceText := sources.files[number.toNat]?

/-- The start of a span, if its file is known. -/
def locate? (sources : Sources) (span : Span) : Option Location := do
  let file ← sources.file? span.file
  return ⟨file.path, file.line span.start.toNat, file.column span.start.toNat⟩

/-- The text a span covers, if its file is known and the span is a range of whole characters. -/
def excerpt? (sources : Sources) (span : Span) : Option String := do
  let file ← sources.file? span.file
  Utf8.slice? file.content span.start.toNat span.stop.toNat

end Sources

end HdlPorts
