import HdlPorts.Declaration.Module

/-! Declarations written with texts for names.

A sketch becomes a declaration by entering its names into a table: the module's name first, then for
each port its name and the name of its type. An initializer may be given as the text of a literal,
which has to be one.
-/

set_option autoImplicit false

namespace HdlPorts

inductive TypeSketch where
  | known (type : PortType)
  | named (name : String)

inductive InitializerSketch where
  | expression (value : Expression)
  | text (chars : String)

structure PortSketch where
  name : String
  direction : Direction
  type : TypeSketch
  initializer : Option InitializerSketch := none
  span : Span := .dummy

structure ModuleSketch where
  name : String
  ports : List PortSketch
  span : Span := .dummy

def TypeSketch.declare (names : Names) : TypeSketch → PortType × Names
  | known type => (type, names)
  | named name =>
    let (key, names) := names.intern name
    (.named key, names)

def InitializerSketch.read : InitializerSketch → Checked Expression
  | expression value => .ok value
  | text chars =>
    match Literal.parse? chars with
    | some literal => .ok (.literal literal)
    | none => .error (.unreadableLiteral chars)

namespace PortSketch

def declare (sketch : PortSketch) (names : Names) : Checked (Port × Names) := do
  let (name, names) := names.intern sketch.name
  let (type, names) := sketch.type.declare names
  let initializer ← sketch.initializer.mapM InitializerSketch.read
  return (⟨name, sketch.direction, type, initializer, sketch.span⟩, names)

def declareAll : List PortSketch → Names → Checked (List Port × Names)
  | [], names => .ok ([], names)
  | sketch :: rest, names => do
    let (port, names) ← sketch.declare names
    let (ports, names) ← declareAll rest names
    return (port :: ports, names)

end PortSketch

namespace ModuleSketch

def declare (sketch : ModuleSketch) (names : Names) : Checked (Module × Names) := do
  let (name, names) := names.intern sketch.name
  let (ports, names) ← PortSketch.declareAll sketch.ports names
  return (⟨name, ports, sketch.span⟩, names)

def declareAll : List ModuleSketch → Names → Checked (List Module × Names)
  | [], names => .ok ([], names)
  | sketch :: rest, names => do
    let (m, names) ← sketch.declare names
    let (modules, names) ← declareAll rest names
    return (m :: modules, names)

def bare : ModuleSketch := ⟨"A", [], .dummy⟩

def mixed : ModuleSketch where
  name := "B"
  ports := [
    ⟨"x", .input, .known .bit, none, .dummy⟩,
    ⟨"y", .output, .known .bit, none, .dummy⟩,
    ⟨"z", .inout, .known .bit, none, .dummy⟩]

def constant : ModuleSketch where
  name := "C"
  ports := [
    ⟨"x", .output, .known .bit, some (.text "0"), .dummy⟩,
    ⟨"y", .output, .known .bit, some (.text "1"), .dummy⟩]

end ModuleSketch

end HdlPorts
