import HdlPorts.Fault
import HdlPorts.Source.Utf8

/-! Lines of a source text.

A line starts at the beginning of the text and after each newline byte, and a newline belongs to
the line it ends. Offsets, columns and lengths are in bytes; lines and columns count from one. An
offset past the end of the text is on its last line.
-/

set_option autoImplicit false

namespace HdlPorts

/-- A file: the name it is shown under and its text. -/
structure SourceText where
  path : String
  content : String
  deriving DecidableEq

namespace SourceText

def newline : UInt8 := 10

/-- The positions that follow a newline, where the first byte is at `position`. -/
def startsAfter : Nat → List UInt8 → List Nat
  | _, [] => []
  | position, byte :: rest =>
    if byte = newline then (position + 1) :: startsAfter (position + 1) rest
    else startsAfter (position + 1) rest

def lineStarts (source : SourceText) : List Nat := 0 :: startsAfter 0 (Utf8.bytes source.content)

def line (source : SourceText) (offset : Nat) : Nat :=
  (source.lineStarts.takeWhile (· ≤ offset)).length

def lineStart (source : SourceText) (line : Nat) : Nat := source.lineStarts.getD (line - 1) 0

/-- Where a line ends: before its newline, or at the end of the text. -/
def lineEnd (source : SourceText) (line : Nat) : Nat :=
  match source.lineStarts[line]? with
  | some next => next - 1
  | none => source.content.utf8ByteSize

/-- The column of an offset in its line. -/
def column (source : SourceText) (offset : Nat) : Nat :=
  offset - source.lineStart (source.line offset) + 1

/-- The text of the line that holds an offset, without its newline. -/
def lineText (source : SourceText) (offset : Nat) : Checked String :=
  let line := source.line offset
  match Utf8.slice? source.content (source.lineStart line) (source.lineEnd line) with
  | some text => .ok text
  | none => .error .splitCharacter

end SourceText

end HdlPorts
