import HdlPorts.Json.Shape
import HdlPorts.Source.Span

/-! Spans as documents. -/

set_option autoImplicit false

namespace HdlPorts.Span

def toJson (span : Span) : Json :=
  .fields [
    ("file", .natural span.file.toNat),
    ("start", .natural span.start.toNat),
    ("end", .natural span.stop.toNat)]

def ofJson? (depth : Nat) (json : Json) : Option Span := do
  let (_, [file, start, stop]) ← json.record? ["file", "start", "end"] depth | none
  let file ← file >>= Json.uint32?
  let start ← start >>= Json.uint32?
  let stop ← stop >>= Json.uint32?
  return ⟨file, start, stop⟩

end HdlPorts.Span
