import HdlPorts.Report.Diagnostic
import HdlPorts.Source.Library

/-! Diagnostics drawn over the source.

```
error[E302]: signal name `z0` in module `B` is produced by both `z` and `y`
 --> b.sv:4:9
  |
4 |   inout bit z
  |             ^ name produced here
   = help: ...
```

A place in a known file is shown in four rows: where it is, an empty gutter, the line, and markers
under the place. The gutter is as wide as the line number. Columns are bytes, and a place of no
length still gets one marker.
-/

set_option autoImplicit false

namespace HdlPorts

/-- The four rows for one place; no rows if its file is not known. -/
def Sources.excerptRows (sources : Sources) (span : Span) (message : String) (marker : Char) :
    Checked (List String) :=
  match sources.file? span.file, sources.locate? span with
  | some file, some location => do
    let text ← file.lineText span.start.toNat
    let number := toString location.line
    let gutter := "".pushn ' ' number.length
    let markers := "".pushn ' ' (location.column - 1) |>.pushn marker (max 1 span.length)
    let note := if message.isEmpty then "" else " " ++ message
    return [
      gutter ++ "--> " ++ location.text,
      gutter ++ " |",
      number ++ " | " ++ text,
      gutter ++ " | " ++ markers ++ note]
  | _, _ => .ok []

namespace Diagnostic

/-- The message shown under the diagnostic's own place. -/
def primaryMessage (diagnostic : Diagnostic) : String :=
  match diagnostic.labels.find? (·.style == .primary) with
  | some label => label.message
  | none => ""

def headline (diagnostic : Diagnostic) : String :=
  diagnostic.severity.text ++ "[" ++ diagnostic.code.text ++ "]: " ++ diagnostic.message

/-- The rows for the related places, in order. -/
def relatedRows (sources : Sources) : List Label → Checked (List String)
  | [] => .ok []
  | label :: rest => do
    let rows ← match label.style with
      | .primary => pure []
      | .secondary => sources.excerptRows label.span label.message '-'
    return rows ++ (← relatedRows sources rest)

def rows (diagnostic : Diagnostic) (sources : Sources) : Checked (List String) := do
  let place ← sources.excerptRows diagnostic.span diagnostic.primaryMessage '^'
  let related ← relatedRows sources diagnostic.labels
  return diagnostic.headline :: place ++ related
    ++ diagnostic.notes.map ("   = note: " ++ ·)
    ++ diagnostic.help.map ("   = help: " ++ ·)

/-- The drawn diagnostic, each row ended by a newline. -/
def render (diagnostic : Diagnostic) (sources : Sources) : Checked String := do
  let rows ← diagnostic.rows sources
  return String.join (rows.map (· ++ "\n"))

end Diagnostic

end HdlPorts
