import HdlPorts.Proofs.LineTexts
import HdlPorts.Report.Rendering

/-! Drawn places point at the source.

A diagnostic is drawn with its own place and with those of its secondary labels, as far as their files
are known, each in a block of four rows. A column counts bytes and a line number has as many bytes as
digits, so the row of the source and the row of the markers are indented alike, and the first marker
stands in its row where the first byte of the place stands in the row above. A place only must not end
before it starts: it may lie past the end of its file or in the middle of a character.
-/

set_option autoImplicit false

namespace HdlPorts

/-! ## What is drawn -/

/-- The sign that marks a place. -/
def LabelStyle.marker : LabelStyle → Char
  | primary => '^'
  | secondary => '-'

/-- A character so many times. -/
def copies (char : Char) (count : Nat) : String := String.ofList (List.replicate count char)

/-- The places that a diagnostic is drawn with: its own, under the message of the first primary label,
and those of the secondary labels in order. -/
def Diagnostic.places (diagnostic : Diagnostic) : List Label :=
  ⟨diagnostic.span,
      ((diagnostic.labels.filter (·.style == .primary)).head?.map (·.message)).getD "", .primary⟩ ::
    diagnostic.labels.filter (·.style == .secondary)

/-- The rows that are drawn for a place. -/
structure Block where
  arrow : String
  gap : String
  source : String
  marks : String

namespace Block

def rows (block : Block) : List String := [block.arrow, block.gap, block.source, block.marks]

/-- The rows, each ended by a newline. -/
def text (block : Block) : String := String.join (block.rows.map (· ++ "\n"))

/-- The rows of a place of some length that starts in a line with this text. -/
def draw (path : String) (label : Label) (line column length : Nat) (text : String) : Block :=
  let number := toString line
  let gutter := copies ' ' number.length
  { arrow := gutter ++ "--> " ++ path ++ ":" ++ number ++ ":" ++ toString column
    gap := gutter ++ " |"
    source := number ++ " | " ++ text
    marks := gutter ++ " | " ++ copies ' ' (column - 1) ++
      copies label.style.marker (max 1 length) ++
      if label.message = "" then "" else " " ++ label.message }

/-- Where the first marker is, in bytes from the start of its row. -/
def firstMarker (block : Block) (label : Label) : Nat :=
  (Utf8.bytes block.marks).idxOf label.style.marker.toUInt8

/-- The rows show a place: they are drawn with its line, its column and its length, and the first
marker is below the byte that the place starts with. -/
structure Shows (block : Block) (file : SourceText) (label : Label) (line column length : Nat)
    (text : String) : Prop where
  place : file.Places label.span.start.toNat line column
  holds : file.HoldsLine line text
  reaches : label.span.start.toNat + length = label.span.stop.toNat
  drawn : block = draw file.path label line column length text
  /-- What comes before the text and before the columns of the markers is equally long. -/
  indented : (Utf8.bytes (copies ' ' (toString line).length ++ " | ")).length =
    (Utf8.bytes (toString line ++ " | ")).length
  first_marker : block.firstMarker label =
    (Utf8.bytes (toString line ++ " | ")).length + (column - 1)
  aligned : label.span.start.toNat < file.lineEnd line →
    ∃ byte, (Utf8.bytes file.content)[label.span.start.toNat]? = some byte ∧
      (Utf8.bytes block.source)[block.firstMarker label]? = some byte

end Block

/-! ## Bytes of the rows -/

namespace LabelStyle

end LabelStyle

namespace Block

variable {path text : String} {label : Label} {line column length : Nat}

end Block

namespace SourceText

variable {file : SourceText} {text : String}

/-- The rows of a place in a file, whose line has this text. -/
def block (file : SourceText) (label : Label) (text : String) : Block :=
  .draw file.path label (file.line label.span.start.toNat) (file.column label.span.start.toNat)
    label.span.length text

end SourceText

/-! ## Rows of places -/

namespace Sources

variable {sources : Sources} {label : Label} {file : SourceText} {text : String}

end Sources

/-! ## Whole diagnostics -/

namespace Diagnostic

/-- The second of two names that collide, with a note at the first. -/
example :
    let sources : Sources := ⟨[⟨"b.sv", "inout bit z\noutput bit z0\n"⟩]⟩
    let first : Label := ⟨⟨0, 10, 11⟩, "first", .secondary⟩
    let diagnostic : Diagnostic := ⟨.error, ⟨.error, 302⟩, "collision", ⟨0, 23, 25⟩, [first], [], []⟩
    diagnostic.render sources = .ok ("error[E302]: collision\n" ++
      " --> b.sv:2:12\n  |\n2 | output bit z0\n  |            ^^\n" ++
      " --> b.sv:1:11\n  |\n1 | inout bit z\n  |           - first\n") := by
  decide +kernel

end Diagnostic

end HdlPorts
