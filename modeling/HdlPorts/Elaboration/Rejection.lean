import HdlPorts.Report.Diagnostic

/-! Reasons to turn a module down, and how they are reported.

A rejection holds texts, not keys, so it can be shown without the table of names.
-/

set_option autoImplicit false

namespace HdlPorts

/-- The port that is being elaborated. -/
structure Site where
  moduleName : String
  portName : String
  span : Span
  deriving DecidableEq

inductive Rejection where
  | unsupportedType (site : Site) (type : String)
  | widthMismatch (site : Site) (valueWidth targetWidth : Nat)
  /-- The port produces a signal name that another one has taken. -/
  | nameCollision (site : Site) (name firstPort : String) (firstSpan : Span)
  | duplicateName (moduleName name : String) (span : Span)
  | initializedInout (site : Site)
  | notConstant (site : Site) (reason : String)
  /-- Something that cannot happen. -/
  | internal (message : String)
  deriving DecidableEq

namespace Rejection

def number : Rejection → UInt16
  | unsupportedType .. => 300
  | widthMismatch .. => 301
  | nameCollision .. => 302
  | duplicateName .. => 303
  | initializedInout .. => 304
  | notConstant .. => 305
  | internal .. => 399

def code (rejection : Rejection) : Code := ⟨.error, rejection.number⟩

/-- The place that is reported. -/
def span : Rejection → Span
  | unsupportedType site _ | widthMismatch site _ _ | nameCollision site _ _ _
  | initializedInout site | notConstant site _ => site.span
  | duplicateName _ _ span => span
  | internal _ => .dummy

def message : Rejection → String
  | unsupportedType site type =>
    "port `" ++ site.portName ++ "` of module `" ++ site.moduleName ++ "` has unsupported type `"
      ++ type ++ "`"
  | widthMismatch site valueWidth targetWidth =>
    "initializer of port `" ++ site.portName ++ "` in module `" ++ site.moduleName ++ "` is "
      ++ toString valueWidth ++ " bits wide but the port has " ++ toString targetWidth
  | nameCollision site name firstPort _ =>
    "signal name `" ++ name ++ "` in module `" ++ site.moduleName ++ "` is produced by both `"
      ++ firstPort ++ "` and `" ++ site.portName ++ "`"
  | duplicateName moduleName name _ =>
    "entity `" ++ moduleName ++ "` declares signal `" ++ name ++ "` more than once"
  | initializedInout site =>
    "inout port `" ++ site.portName ++ "` of module `" ++ site.moduleName
      ++ "` cannot have an initializer"
  | notConstant site reason =>
    "cannot evaluate initializer of port `" ++ site.portName ++ "` in module `" ++ site.moduleName
      ++ "`: " ++ reason
  | internal message => "internal compiler error: " ++ message

def labels : Rejection → List Label
  | unsupportedType site _ => [⟨site.span, "no primitive mapping", .primary⟩]
  | widthMismatch site _ _ => [⟨site.span, "initializer does not fit", .primary⟩]
  | nameCollision site _ firstPort firstSpan =>
    [⟨site.span, "name produced here", .primary⟩,
      ⟨firstSpan, "first produced by `" ++ firstPort ++ "`", .secondary⟩]
  | initializedInout site => [⟨site.span, "initializer not allowed here", .primary⟩]
  | notConstant site _ => [⟨site.span, "in this initializer", .primary⟩]
  | duplicateName .. | internal .. => []

def notes : Rejection → List String
  | widthMismatch _ _ targetWidth =>
    ["narrower values are zero-extended to " ++ toString targetWidth ++ " bits"]
  | duplicateName .. => ["this indicates a bug in the elaborator"]
  | initializedInout _ => ["the companion output of an inout port is always driven with zero"]
  | internal _ => ["this is a bug in the elaborator"]
  | unsupportedType .. | nameCollision .. | notConstant .. => []

def help : Rejection → List String
  | unsupportedType .. => ["use `bit`, `logic`, a packed vector, or a 2-state integer type"]
  | nameCollision .. => ["rename one of the ports or change `elaborate.companion_suffix`"]
  | _ => []

def diagnostic (rejection : Rejection) : Diagnostic where
  severity := .error
  code := rejection.code
  message := rejection.message
  span := rejection.span
  labels := rejection.labels
  notes := rejection.notes
  help := rejection.help

end Rejection

end HdlPorts
