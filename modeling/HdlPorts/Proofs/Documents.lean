import HdlPorts.Declaration.Json
import HdlPorts.Netlist.Json
import HdlPorts.Proofs.DocumentShapes
import HdlPorts.Proofs.JsonTexts

/-! Declarations and entities are read back from their documents.

Keys of names, slots and the widths of vectors are written as numbers and read as numbers of 32
bits, so values that `Fits` hold are those in which they are such numbers; everything else in a
value may be anything. What decides is the nesting of the document. An entity is never nested deeper
than a reader goes, but the initializer of a port may be: then the declaration is refused.
-/

set_option autoImplicit false

namespace HdlPorts

open Json (Decodes)

namespace Name

def Fits (name : Name) : Prop := name.key < UInt32.size

@[simp] theorem nesting_toJson (name : Name) : name.toJson.nesting = 0 := rfl

theorem ofJson?_toJson {name : Name} (fits : name.Fits) : ofJson? name.toJson = some name := by
  rw [toJson, ofJson?, Json.below?_natural fits, Option.map_some]

end Name

theorem Span.decodes (span : Span) : Decodes ofJson? span.toJson span := by
  refine Json.decodes_record rfl (by simp) fun depth => ?_
  simp

/-! ## Bits and vectors -/

theorem Logic.decodes (bit : Logic) : Decodes ofJson? bit.toJson bit :=
  Json.decodes_tag (by rintro (_ | _ | _ | _) <;> rfl) bit

namespace LogicVector

def Fits (v : LogicVector) : Prop := v.width < UInt32.size

theorem decodes {v : LogicVector} (fits : v.Fits) : Decodes ofJson? v.toJson v := by
  have words : Decodes (Json.list? fun _ => Json.uint64?)
      (.ofList (fun word : UInt64 => .natural word.toNat) v.words) v.words :=
    Json.decodes_ofList fun word _ depth => by simp
  refine Json.decodes_record rfl (by simp) fun depth => ?_
  simp [Json.below?_natural fits, words depth]

end LogicVector

namespace Literal

def Fits : Literal → Prop
  | sized bits => bits.Fits
  | _ => True

theorem decodes {value : Literal} (fits : value.Fits) : Decodes ofJson? value.toJson value := by
  intro depth
  cases depth with
  | zero => cases value <;> rfl
  | succ depth =>
    cases value with
    | unsized number => simp [toJson, ofJson?]
    | sized bits => simp [toJson, ofJson?, LogicVector.decodes fits depth]
    | fill bit => simp [toJson, ofJson?, bit.decodes depth]

end Literal

/-! ## Expressions

Reading an expression takes one off the depth for its tag, and one more for what goes with the tag
if that is a record or a list. -/

theorem BinaryOperator.decodes (operator : BinaryOperator) :
    Decodes ofJson? operator.toJson operator :=
  Json.decodes_tag (by rintro (_ | _ | _ | _ | _) <;> rfl) operator

namespace Expression

mutual

def Fits : Expression → Prop
  | literal value => value.Fits
  | not operand => Fits operand
  | binary _ left right => Fits left ∧ Fits right
  | concat parts => AllFit parts

def AllFit : List Expression → Prop
  | [] => True
  | part :: rest => Fits part ∧ AllFit rest

end

theorem toJson_ne_null (expression : Expression) : expression.toJson ≠ .null := by
  cases expression <;> simp [toJson, Json.tagged, Json.fields]

theorem partsToJson_eq (parts : List Expression) : partsToJson parts = parts.map toJson := by
  induction parts with
  | nil => rfl
  | cons part rest ih => rw [partsToJson, ih, List.map_cons]

theorem ofJson?_zero (json : Json) : ofJson? 0 json = none := by
  rw [ofJson?]
  all_goals simp

theorem ofJson?_literal (depth : Nat) (value : Json) :
    ofJson? (depth + 1) (.tagged "Literal" value) = (Literal.ofJson? depth value).map literal := by
  rw [Json.tagged, Json.fields, List.map_singleton, ofJson?]

theorem ofJson?_not (depth : Nat) (value : Json) :
    ofJson? (depth + 1) (.tagged "Not" value) = (ofJson? depth value).map not := by
  rw [Json.tagged, Json.fields, List.map_singleton, ofJson?]

theorem ofJson?_binary_one (value : Json) : ofJson? 1 (.tagged "Binary" value) = none := by
  rw [Json.tagged, Json.fields, List.map_singleton, ofJson?]
  all_goals simp

theorem ofJson?_binary (depth : Nat) (operator left right : Json) :
    ofJson? (depth + 2)
        (.tagged "Binary" (.fields [("op", operator), ("lhs", left), ("rhs", right)])) = (do
      let operator ← BinaryOperator.ofJson? depth operator
      let left ← ofJson? depth left
      let right ← ofJson? depth right
      return binary operator left right) := by
  have found : (Json.fields [("op", operator), ("lhs", left), ("rhs", right)]).fields?
      ["op", "lhs", "rhs"] = some [some operator, some left, some right] :=
    Json.fields?_fields rfl (by simp)
  rw [Json.tagged, Json.fields, List.map_singleton, ofJson?, found]
  rfl

theorem ofJson?_concat_one (value : Json) : ofJson? 1 (.tagged "Concat" value) = none := by
  rw [Json.tagged, Json.fields, List.map_singleton, ofJson?]
  all_goals simp

theorem ofJson?_concat (depth : Nat) (parts : List Json) :
    ofJson? (depth + 2) (.tagged "Concat" (.array parts)) =
      (parts.mapM (ofJson? depth)).map concat := by
  rw [Json.tagged, Json.fields, List.map_singleton, ofJson?]

theorem decodes_literal {value : Literal} (fits : value.Fits) :
    Decodes ofJson? (literal value).toJson (literal value) := by
  intro depth
  cases depth with
  | zero => simp [toJson, ofJson?_zero]
  | succ depth => simp [toJson, ofJson?_literal, value.decodes fits depth]

theorem decodes_not {operand : Expression} (own : Decodes ofJson? operand.toJson operand) :
    Decodes ofJson? (not operand).toJson (not operand) := by
  intro depth
  cases depth with
  | zero => simp [toJson, ofJson?_zero]
  | succ depth => simp [toJson, ofJson?_not, own depth]

theorem decodes_binary (operator : BinaryOperator) {left right : Expression}
    (first : Decodes ofJson? left.toJson left) (second : Decodes ofJson? right.toJson right) :
    Decodes ofJson? (binary operator left right).toJson (binary operator left right) := by
  intro depth
  match depth with
  | 0 => simp [toJson, ofJson?_zero]
  | 1 => simp [toJson, ofJson?_binary_one]
  | depth + 2 =>
    simp [toJson, ofJson?_binary, operator.decodes depth, first depth, second depth, ite_and]

theorem decodes_concat {parts : List Expression}
    (each : ∀ part ∈ parts, Decodes ofJson? part.toJson part) :
    Decodes ofJson? (concat parts).toJson (concat parts) := by
  intro depth
  match depth with
  | 0 => simp [toJson, ofJson?_zero]
  | 1 => simp [toJson, ofJson?_concat_one, Json.nesting]
  | depth + 2 =>
    simp [toJson, ofJson?_concat, partsToJson_eq, Json.mapM_decode each depth, Json.nesting]

mutual

theorem decodes : ∀ (expression : Expression), expression.Fits →
    Decodes ofJson? expression.toJson expression
  | literal _, fits => decodes_literal fits
  | not operand, fits => decodes_not (decodes operand fits)
  | binary operator left right, fits =>
    decodes_binary operator (decodes left fits.1) (decodes right fits.2)
  | concat parts, fits => decodes_concat (decodes_parts parts fits)

theorem decodes_parts : ∀ (parts : List Expression), AllFit parts →
    ∀ part ∈ parts, Decodes ofJson? part.toJson part
  | [], _ => nofun
  | part :: rest, fits => List.forall_mem_cons.mpr ⟨decodes part fits.1, decodes_parts rest fits.2⟩

end

end Expression

/-! ## Declarations -/

namespace PortType

def Fits : PortType → Prop
  | named name => name.Fits
  | _ => True

theorem decodes_packed (width : UInt32) (signed : Bool) :
    Decodes packedOfJson? (packedToJson width signed) (width, signed) := by
  refine Json.decodes_record rfl (by simp) fun depth => ?_
  simp [Json.bool?]

theorem ofJson?_bitVector (depth : Nat) (width : UInt32) (signed : Bool) :
    ofJson? (depth + 1) (bitVector width signed).toJson =
      (packedOfJson? depth (packedToJson width signed)).map fun packed =>
        bitVector packed.1 packed.2 :=
  rfl

theorem ofJson?_logicVector (depth : Nat) (width : UInt32) (signed : Bool) :
    ofJson? (depth + 1) (logicVector width signed).toJson =
      (packedOfJson? depth (packedToJson width signed)).map fun packed =>
        logicVector packed.1 packed.2 :=
  rfl

theorem ofJson?_named (depth : Nat) (name : Name) :
    ofJson? (depth + 1) (named name).toJson = (Name.ofJson? name.toJson).map named :=
  rfl

theorem decodes {type : PortType} (fits : type.Fits) : Decodes ofJson? type.toJson type := by
  intro depth
  cases depth with
  | zero => cases type <;> rfl
  | succ depth =>
    cases type with
    | bitVector width signed =>
      rw [ofJson?_bitVector, decodes_packed width signed depth]
      simp [toJson]
    | logicVector width signed =>
      rw [ofJson?_logicVector, decodes_packed width signed depth]
      simp [toJson]
    | named name =>
      rw [ofJson?_named, Name.ofJson?_toJson fits]
      simp [toJson]
    | _ => rfl

end PortType

theorem Direction.decodes (direction : Direction) :
    Decodes ofJson? direction.toJson direction :=
  Json.decodes_tag (by rintro (_ | _ | _) <;> rfl) direction

namespace Port

structure Fits (port : Port) : Prop where
  name : port.name.Fits
  type : port.type.Fits
  initializer : ∀ expression ∈ port.initializer, expression.Fits

theorem decodes {port : Port} (fits : port.Fits) : Decodes ofJson? port.toJson port := by
  refine Json.decodes_record rfl (by simp) fun depth => ?_
  have name := Name.ofJson?_toJson fits.name
  have direction := port.direction.decodes depth
  have type := PortType.decodes fits.type depth
  have given : ∀ value ∈ port.initializer,
      value.toJson ≠ .null ∧ Decodes Expression.ofJson? value.toJson value :=
    fun value given => ⟨value.toJson_ne_null, value.decodes (fits.initializer value given)⟩
  have initializer := Json.optional?_orNull given depth
  have span := port.span.decodes depth
  simp [name, direction, type, initializer, span, ite_and]

end Port

namespace Module

structure Fits (m : Module) : Prop where
  name : m.name.Fits
  ports : ∀ port ∈ m.ports, port.Fits

theorem decodes {m : Module} (fits : m.Fits) : Decodes ofJson? m.toJson m := by
  refine Json.decodes_record rfl (by simp) fun depth => ?_
  have name := Name.ofJson?_toJson fits.name
  have ports := Json.decodes_ofList (fun port listed => Port.decodes (fits.ports port listed)) depth
  have span := m.span.decodes depth
  simp [name, ports, span, ite_and]

/-- Nothing but the initializer of a port may be nested deep. It stands in the port, the list of
ports and the declaration. -/
theorem nesting_toJson (m : Module) (depth : Nat) :
    m.toJson.nesting ≤ depth + 5 ↔
      ∀ port ∈ m.ports, ∀ value ∈ port.initializer, value.toJson.nesting ≤ depth + 2 := by
  have types : ∀ type : PortType, type.toJson.nesting ≤ depth + 2 := by
    intro type
    cases type <;> simp [PortType.toJson, PortType.packedToJson]
  have ports : ∀ port : Port, port.toJson.nesting ≤ depth + 3 ↔
      ∀ value ∈ port.initializer, value.toJson.nesting ≤ depth + 2 := by
    rintro ⟨name, direction, type, _ | value, span⟩ <;>
      simp [Port.toJson, Direction.toJson, Span.toJson, Json.orNull, types]
  simp [toJson, Span.toJson, ports]

end Module

/-! ## Entities -/

namespace Slot

variable {α : Type}

def Fits (slot : Slot α) : Prop := slot.index < UInt32.size

@[simp] theorem nesting_toJson (slot : Slot α) : slot.toJson.nesting = 0 := rfl

theorem ofJson?_toJson {slot : Slot α} (fits : slot.Fits) : ofJson? slot.toJson = some slot := by
  rw [toJson, ofJson?, Json.below?_natural fits, Option.map_some]

theorem decodes_list {slots : List (Slot α)} (fits : ∀ slot ∈ slots, slot.Fits) :
    Decodes (Json.list? fun _ => ofJson?) (.ofList toJson slots) slots :=
  Json.decodes_ofList fun slot listed depth => by
    simp [ofJson?_toJson (fits slot listed)]

end Slot

theorem Arena.decodes {α : Type} {decode : Nat → Json → Option α} {encode : α → Json}
    {arena : Arena α} (each : ∀ item ∈ arena.items, Decodes decode (encode item) item) :
    Decodes (ofJson? decode) (arena.toJson encode) arena := by
  refine Json.decodes_record rfl (by simp) fun depth => ?_
  have items := Json.decodes_ofList each depth
  simp [items]

theorem Digest.decodes (digest : Digest) : Decodes ofJson? digest.toJson digest := by
  intro depth
  have bytes : Decodes (Json.list? fun _ => Json.uint8?)
      (.ofList (fun byte : UInt8 => .natural byte.toNat) digest.bytes) digest.bytes :=
    Json.decodes_ofList fun byte _ depth => by simp
  rw [ofJson?, toJson, bytes depth]
  simp only [bind, Json.bind_if, dif_pos digest.length_eq]

theorem SignalType.decodes (type : SignalType) : Decodes ofJson? type.toJson type := by
  refine Json.decodes_record rfl (by simp) fun depth => ?_
  simp [Json.bool?]

theorem Role.decodes (role : Role) : Decodes ofJson? role.toJson role :=
  Json.decodes_tag (by rintro (_ | _) <;> rfl) role

namespace Signal

structure Fits (signal : Signal) : Prop where
  name : signal.name.Fits
  companionOf : ∀ port ∈ signal.companionOf, port.Fits

theorem decodes {signal : Signal} (fits : signal.Fits) : Decodes ofJson? signal.toJson signal := by
  refine Json.decodes_record rfl (by simp) fun depth => ?_
  have name := Name.ofJson?_toJson fits.name
  have type := signal.type.decodes depth
  have role := signal.role.decodes depth
  have given : ∀ port ∈ signal.companionOf,
      port.toJson ≠ .null ∧ Decodes (fun _ => Name.ofJson?) port.toJson port := by
    intro port given
    refine ⟨nofun, fun depth => ?_⟩
    simp [Name.ofJson?_toJson (fits.companionOf port given)]
  have companionOf := Json.optional?_orNull given depth
  have span := signal.span.decodes depth
  simp [name, type, role, companionOf, span, ite_and]

end Signal

namespace Drive

structure Fits (drive : Drive) : Prop where
  target : drive.target.Fits
  value : drive.value.Fits

theorem decodes {drive : Drive} (fits : drive.Fits) : Decodes ofJson? drive.toJson drive := by
  refine Json.decodes_record rfl (by simp) fun depth => ?_
  have target := Slot.ofJson?_toJson fits.target
  have value := LogicVector.decodes fits.value depth
  have span := drive.span.decodes depth
  simp [target, value, span, ite_and]

end Drive

namespace Entity

structure Fits (entity : Entity) : Prop where
  name : entity.name.Fits
  signals : ∀ signal ∈ entity.signals.items, signal.Fits
  inputs : ∀ id ∈ entity.inputs, id.Fits
  outputs : ∀ id ∈ entity.outputs, id.Fits
  body : ∀ drive ∈ entity.body, drive.Fits

theorem decodes {entity : Entity} (fits : entity.Fits) : Decodes ofJson? entity.toJson entity := by
  refine Json.decodes_record rfl (by simp) fun depth => ?_
  have name := Name.ofJson?_toJson fits.name
  have signals := Arena.decodes (fun signal listed => Signal.decodes (fits.signals signal listed))
    depth
  have inputs := Slot.decodes_list fits.inputs depth
  have outputs := Slot.decodes_list fits.outputs depth
  have body := Json.decodes_ofList (fun drive listed => Drive.decodes (fits.body drive listed))
    depth
  have digest := entity.digest.decodes depth
  have span := entity.span.decodes depth
  simp [name, signals, inputs, outputs, body, digest, span, ite_and]

/-- The deepest parts of an entity are the types of its signals and the words of its drives. -/
theorem nesting_toJson (entity : Entity) : entity.toJson.nesting ≤ 5 := by
  have signals : ∀ signal : Signal, signal.toJson.nesting ≤ 2 := by
    rintro ⟨name, type, role, _ | companionOf, span⟩ <;>
      simp [Signal.toJson, SignalType.toJson, Role.toJson, Span.toJson, Json.orNull]
  have drives : ∀ drive : Drive, drive.toJson.nesting ≤ 3 := fun drive => by
    simp [Drive.toJson, LogicVector.toJson, Span.toJson]
  simp [toJson, Arena.toJson, signals, drives, Digest.toJson, Span.toJson]

end Entity

/-! ## Whole documents -/

theorem Json.read?_compact {α : Type} {decode : Nat → Json → Option α} {json : Json} {value : α}
    (decodes : Decodes decode json value) :
    read? decode json.compact = if json.nesting ≤ maxDepth then some value else none := by
  rw [read?, parse?_compact]
  exact decodes maxDepth

/-- A declaration is read back from its document if that is not nested deeper than a reader goes,
which is up to the initializers of its ports, and is refused otherwise. An entity is always read
back, well formed or not, so every identifier stands for the same signal as before. -/
theorem documents_read_back {m : Module} {entity : Entity} (fits : m.Fits) (fits' : entity.Fits) :
    Json.read? Module.ofJson? m.toJson.compact =
        (if m.toJson.nesting ≤ Json.maxDepth then some m else none) ∧
      (m.toJson.nesting ≤ Json.maxDepth ↔ ∀ port ∈ m.ports, ∀ value ∈ port.initializer,
        value.toJson.nesting + 3 ≤ Json.maxDepth) ∧
      Json.read? Entity.ofJson? entity.toJson.compact = some entity ∧
      ∀ id, (Json.read? Entity.ofJson? entity.toJson.compact).bind (·.signal? id) =
        entity.signal? id := by
  have shallow : entity.toJson.nesting ≤ Json.maxDepth :=
    Nat.le_trans entity.nesting_toJson (by decide)
  have read := Json.read?_compact (Entity.decodes fits')
  rw [if_pos shallow] at read
  refine ⟨Json.read?_compact (Module.decodes fits), ?_, read, fun id => ?_⟩
  · simpa [Json.maxDepth] using m.nesting_toJson 122
  · rw [read, Option.bind_some]

namespace Sample

/-- A port that goes both ways, and an output of a type that is defined elsewhere. -/
def declared : Module where
  name := ⟨0⟩
  ports := [
    ⟨⟨1⟩, .inout, .logicVector 8 true, none, .dummy⟩,
    ⟨⟨2⟩, .output, .named ⟨3⟩, some (.concat [
      .literal (.fill .x),
      .binary .add (.literal (.unsized 5)) (.not (.literal (.sized ⟨4, [228]⟩)))]), .dummy⟩]

theorem declared_fits : declared.Fits := by
  refine ⟨show 0 < UInt32.size by decide, ?_⟩
  simp only [declared, List.forall_mem_cons]
  refine ⟨⟨show 1 < UInt32.size by decide, trivial, nofun⟩,
    ⟨show 2 < UInt32.size by decide, show 3 < UInt32.size by decide, ?_⟩, nofun⟩
  rintro _ ⟨⟩
  exact ⟨trivial, ⟨trivial, show 4 < UInt32.size by decide⟩, trivial⟩

/-- An entity that lists and drives a signal it does not have. -/
def dangling : Entity where
  name := ⟨0⟩
  signals := ⟨[⟨⟨1⟩, ⟨8, true⟩, .output, some ⟨2⟩, .dummy⟩]⟩
  inputs := [⟨0⟩]
  outputs := [⟨7⟩]
  body := [⟨⟨7⟩, ⟨40, [3]⟩, .dummy⟩]
  digest := ⟨List.replicate 16 255, rfl⟩
  span := .dummy

theorem dangling_fits : dangling.Fits := by
  have seven : 7 < UInt32.size := by decide
  refine ⟨show 0 < UInt32.size by decide, ?_, ?_, ?_, ?_⟩ <;>
    simp only [dangling, List.forall_mem_singleton]
  · refine ⟨show 1 < UInt32.size by decide, ?_⟩
    rintro _ ⟨⟩
    exact show 2 < UInt32.size by decide
  · exact show 0 < UInt32.size by decide
  · exact seven
  · exact ⟨seven, show 40 < UInt32.size by decide⟩

end Sample

theorem documents_read_back_sample :
    Sample.declared.Fits ∧ Sample.dangling.Fits ∧
      Json.read? Module.ofJson? Sample.declared.toJson.compact = some Sample.declared ∧
      Json.read? Entity.ofJson? Sample.dangling.toJson.compact = some Sample.dangling := by
  obtain ⟨declaration, _, entity, _⟩ :=
    documents_read_back Sample.declared_fits Sample.dangling_fits
  rw [if_pos (by decide)] at declaration
  exact ⟨Sample.declared_fits, Sample.dangling_fits, declaration, entity⟩

namespace Sample

/-- So many complements of a literal. -/
def negations : Nat → Expression
  | 0 => .literal (.fill .one)
  | count + 1 => .not (negations count)

/-- A declaration of one output, with so many complements in its initializer. -/
def negated (count : Nat) : Module where
  name := ⟨0⟩
  ports := [⟨⟨1⟩, .output, .bit, some (negations count), .dummy⟩]

theorem negations_nesting (count : Nat) : (negations count).toJson.nesting = count + 2 := by
  induction count with
  | zero => rfl
  | succ count ih => simp [negations, Expression.toJson, ih]

theorem negations_fit (count : Nat) : (negations count).Fits := by
  induction count with
  | zero => trivial
  | succ count ih => exact ih

theorem negated_fits (count : Nat) : (negated count).Fits := by
  refine ⟨show 0 < UInt32.size by decide, ?_⟩
  simp only [negated, List.forall_mem_singleton]
  refine ⟨show 1 < UInt32.size by decide, trivial, ?_⟩
  rintro _ ⟨⟩
  exact negations_fit count

theorem negated_nesting (count depth : Nat) :
    (negated count).toJson.nesting ≤ depth + 5 ↔ count ≤ depth := by
  simp [Module.nesting_toJson, negated, negations_nesting]

end Sample

/-- A hundred and thirty complements are nested too deep for a reader. -/
theorem Module.deep_initializer_refused :
    (Sample.negated 130).Fits ∧
      Json.read? Module.ofJson? (Sample.negated 130).toJson.compact ≠ some (Sample.negated 130) := by
  have fits := Sample.negated_fits 130
  have deep : ¬ (Sample.negated 130).toJson.nesting ≤ Json.maxDepth :=
    mt (Sample.negated_nesting 130 122).mp (by decide)
  refine ⟨fits, ?_⟩
  rw [Json.read?_compact (Module.decodes fits), if_neg deep]
  nofun

end HdlPorts
