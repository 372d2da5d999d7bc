import HdlPorts.Json.Shape
import HdlPorts.Report.Diagnostic
import HdlPorts.Source.Json

/-! Diagnostics as documents. -/

set_option autoImplicit false

namespace HdlPorts

namespace Severity

def tag : Severity → String
  | note => "Note"
  | warning => "Warning"
  | error => "Error"

def ofTag? : String → Option Severity
  | "Note" => some note
  | "Warning" => some warning
  | "Error" => some error
  | _ => none

def toJson (severity : Severity) : Json := .text severity.tag

def ofJson? (depth : Nat) (json : Json) : Option Severity := json.tag? depth >>= ofTag?

end Severity

namespace Category

def tag : Category → String
  | error => "Error"
  | warning => "Warning"

def ofTag? : String → Option Category
  | "Error" => some error
  | "Warning" => some warning
  | _ => none

def toJson (category : Category) : Json := .text category.tag

def ofJson? (depth : Nat) (json : Json) : Option Category := json.tag? depth >>= ofTag?

end Category

namespace Code

def toJson (code : Code) : Json :=
  .fields [("category", code.category.toJson), ("number", .natural code.number.toNat)]

def ofJson? (depth : Nat) (json : Json) : Option Code := do
  let (depth, [category, number]) ← json.record? ["category", "number"] depth | none
  let category ← category >>= Category.ofJson? depth
  let number ← number >>= Json.uint16?
  return ⟨category, number⟩

end Code

namespace LabelStyle

def tag : LabelStyle → String
  | primary => "Primary"
  | secondary => "Secondary"

def ofTag? : String → Option LabelStyle
  | "Primary" => some primary
  | "Secondary" => some secondary
  | _ => none

def toJson (style : LabelStyle) : Json := .text style.tag

def ofJson? (depth : Nat) (json : Json) : Option LabelStyle := json.tag? depth >>= ofTag?

end LabelStyle

namespace Label

def toJson (label : Label) : Json :=
  .fields [
    ("span", label.span.toJson),
    ("message", .text label.message),
    ("style", label.style.toJson)]

def ofJson? (depth : Nat) (json : Json) : Option Label := do
  let (depth, [span, message, style]) ← json.record? ["span", "message", "style"] depth | none
  let span ← span >>= Span.ofJson? depth
  let message ← message >>= Json.text?
  let style ← style >>= LabelStyle.ofJson? depth
  return ⟨span, message, style⟩

end Label

namespace Diagnostic

def toJson (diagnostic : Diagnostic) : Json :=
  .fields [
    ("severity", diagnostic.severity.toJson),
    ("code", diagnostic.code.toJson),
    ("message", .text diagnostic.message),
    ("primary_span", diagnostic.span.toJson),
    ("labels", .ofList Label.toJson diagnostic.labels),
    ("notes", .ofList Json.text diagnostic.notes),
    ("help", .ofList Json.text diagnostic.help)]

def ofJson? (depth : Nat) (json : Json) : Option Diagnostic := do
  let (depth, [severity, code, message, span, labels, notes, help]) ←
    json.record? ["severity", "code", "message", "primary_span", "labels", "notes", "help"] depth
    | none
  let severity ← severity >>= Severity.ofJson? depth
  let code ← code >>= Code.ofJson? depth
  let message ← message >>= Json.text?
  let span ← span >>= Span.ofJson? depth
  let labels ← labels >>= Json.list? Label.ofJson? depth
  let notes ← notes >>= Json.list? (fun _ => Json.text?) depth
  let help ← help >>= Json.list? (fun _ => Json.text?) depth
  return ⟨severity, code, message, span, labels, notes, help⟩

end Diagnostic

end HdlPorts
