import HdlPorts.Proofs.BuiltEntities
import HdlPorts.Proofs.ListingSyntax
import HdlPorts.Settings.Document

/-! A listing tells entities apart.

An entity that keeps the rules is listed with the contents that its signals and drives have. The
rules see to it that names tell its outputs apart and that values have the widths of their outputs,
which is what it takes to read the contents back from the text.
-/

set_option autoImplicit false

namespace HdlPorts

/-! ## The listing of an entity -/

theorem intercalate_cons {α : Type} (separator first : List α) (rest : List (List α)) :
    separator.intercalate (first :: rest) = first ++ rest.flatMap (separator ++ ·) := by
  induction rest generalizing first with
  | nil => simp
  | cons second rest ih =>
    rw [List.intercalate_cons_cons, ih, List.flatMap_cons, List.append_assoc, List.append_assoc]

theorem intercalate_signalChars (signals : List (Nat × String)) :
    ", ".toList.intercalate (signals.map signalChars) = sideChars signals := by
  cases signals with
  | nil => rfl
  | cons first rest =>
    rw [List.map_cons, intercalate_cons, List.flatMap_map]
    rfl

theorem writesDrives_append {texts : List String} {drives : List (String × List Logic)}
    (each : List.Forall₂ (fun text drive => ∃ value, LogicVector.Writes drive.2 value ∧
      text.toList = "\n    drv %".toList ++ (drive.1.toList ++ ' ' :: value)) texts drives) :
    WritesDrives drives ((String.join texts).toList ++ "\n\x7d".toList) := by
  rw [String.toList_join]
  induction each with
  | nil => exact .done rfl
  | cons own _ ih =>
    obtain ⟨value, writes, same⟩ := own
    refine .drive writes ih ?_
    rw [List.flatMap_cons, same]
    simp only [List.append_assoc, List.cons_append]

namespace Entity

variable {entity : Entity} {names : Names} {id : SignalId} {text : String}

def signalContents? (entity : Entity) (names : Names) (id : SignalId) : Option (Nat × String) := do
  let signal ← entity.signal? id
  let text ← names.text? signal.name
  return (signal.type.width.toNat, text)

def driveContents? (entity : Entity) (names : Names) (drive : Drive) :
    Option (String × List Logic) := do
  let (_, text) ← entity.signalContents? names drive.target
  let bits ← drive.value.bits.toOption
  return (text, bits)

/-- What is told of an entity whose signals have names in the table. -/
def contents? (entity : Entity) (names : Names) : Option Contents := do
  let name ← names.text? entity.name
  let inputs ← entity.inputs.mapM (entity.signalContents? names)
  let outputs ← entity.outputs.mapM (entity.signalContents? names)
  let drives ← entity.body.mapM (entity.driveContents? names)
  return ⟨name, inputs, outputs, drives⟩

/-- The names of the entity and of its listed signals are plain. -/
structure PlainlyNamed (entity : Entity) (names : Names) : Prop where
  name : ∀ text, names.text? entity.name = some text → Plain text
  signals : ∀ id ∈ entity.inputs ++ entity.outputs, ∀ signal, entity.signal? id = some signal →
    ∀ text, names.text? signal.name = some text → Plain text

theorem signalContents?_eq_some {signal : Nat × String} :
    entity.signalContents? names id = some signal ↔
      ∃ stored, entity.signal? id = some stored ∧ names.text? stored.name = some signal.2 ∧
        stored.type.width.toNat = signal.1 := by
  obtain ⟨width, text⟩ := signal
  simp only [signalContents?, bind, Option.bind_eq_some_iff, pure, Option.some.injEq, Prod.mk.injEq]
  constructor
  · rintro ⟨stored, found, _, spelled, rfl, rfl⟩
    exact ⟨stored, found, spelled, rfl⟩
  · rintro ⟨stored, found, spelled, rfl⟩
    exact ⟨stored, found, text, spelled, rfl, rfl⟩

theorem driveContents?_eq_some {drive : Drive} {driven : String × List Logic} :
    entity.driveContents? names drive = some driven ↔
      ∃ stored, entity.signal? drive.target = some stored ∧
        names.text? stored.name = some driven.1 ∧ drive.value.bits = .ok driven.2 := by
  obtain ⟨text, bits⟩ := driven
  have read : drive.value.bits.toOption = some bits ↔ drive.value.bits = .ok bits := by
    cases drive.value.bits <;> simp [Except.toOption]
  simp only [driveContents?, bind, Option.bind_eq_some_iff, pure, Option.some.injEq, Prod.mk.injEq,
    signalContents?_eq_some]
  constructor
  · rintro ⟨_, ⟨stored, found, spelled, _⟩, _, counted, rfl, rfl⟩
    exact ⟨stored, found, spelled, read.mp counted⟩
  · rintro ⟨stored, found, spelled, counted⟩
    exact ⟨(stored.type.width.toNat, text), ⟨stored, found, spelled, rfl⟩, bits, read.mpr counted,
      rfl, rfl⟩

theorem signalContents?_of_text {role : Role} (listed : entity.HasRole role id)
    (shown : entity.signalText names id = .ok text) :
    ∃ signal, entity.signalContents? names id = some signal ∧ text.toList = signalChars signal := by
  obtain ⟨stored, found, _⟩ := listed
  obtain ⟨name, spelled, shown⟩ := ok_of_bind shown
  rw [signalName, found] at spelled
  rw [found] at shown
  cases shown
  refine ⟨(stored.type.width.toNat, name), ?_, by simp [signalChars, SignalType.text]⟩
  exact signalContents?_eq_some.mpr ⟨stored, found, Names.text_eq_ok.mp spelled, rfl⟩

theorem sideChars_of_list {role : Role} {ids : List SignalId}
    (listed : ∀ id ∈ ids, entity.HasRole role id)
    (shown : entity.signalList names ids = .ok text) :
    ∃ signals, ids.mapM (entity.signalContents? names) = some signals ∧
      text.toList = '(' :: (sideChars signals ++ [')']) := by
  obtain ⟨texts, each, shown⟩ := ok_of_bind shown
  cases shown
  obtain ⟨signals, found, same⟩ := mapM_some_of_ok
    (fun id member _ => signalContents?_of_text (listed id member)) each
  have chars : texts.map String.toList = signals.map signalChars := by
    rw [← List.forall₂_eq_eq_eq, List.forall₂_map_left_iff, List.forall₂_map_right_iff]
    exact same
  refine ⟨signals, found, ?_⟩
  rw [String.toList_append, String.toList_append, String.toList_intercalate, chars,
    intercalate_signalChars]
  rfl

theorem driveContents?_of_text {drive : Drive} {role : Role}
    (listed : entity.HasRole role drive.target)
    (shown : entity.driveText names drive = .ok text) :
    ∃ driven, entity.driveContents? names drive = some driven ∧
      ∃ value, LogicVector.Writes driven.2 value ∧
        text.toList = "\n    drv %".toList ++ (driven.1.toList ++ ' ' :: value) := by
  obtain ⟨stored, found, _⟩ := listed
  obtain ⟨name, spelled, shown⟩ := ok_of_bind shown
  obtain ⟨value, written, shown⟩ := ok_of_bind shown
  cases shown
  rw [signalName, found] at spelled
  obtain ⟨bits, read, writes⟩ := LogicVector.writes_of_valueText written
  refine ⟨(name, bits), ?_, value.toList, writes, by simp⟩
  exact driveContents?_eq_some.mpr ⟨stored, found, Names.text_eq_ok.mp spelled, read⟩

theorem contents?_cases {contents : Contents} (told : entity.contents? names = some contents) :
    names.text? entity.name = some contents.name ∧
      entity.inputs.mapM (entity.signalContents? names) = some contents.inputs ∧
      entity.outputs.mapM (entity.signalContents? names) = some contents.outputs ∧
      entity.body.mapM (entity.driveContents? names) = some contents.drives := by
  simp only [contents?, bind, Option.bind_eq_some_iff, pure, Option.some.injEq] at told
  obtain ⟨name, named, inputs, listed, outputs, listed', drives, driven, rfl⟩ := told
  exact ⟨named, listed, listed', driven⟩

theorem sound_of_contents {contents : Contents} (wellFormed : entity.WellFormed)
    (plain : entity.PlainlyNamed names) (told : entity.contents? names = some contents) :
    contents.Sound := by
  obtain ⟨named, inputs, outputs, drives⟩ := contents?_cases told
  refine ⟨plain.name _ named, ?_, ?_, ?_, ?_⟩
  · intro signal member
    obtain ⟨id, member, found⟩ := (mem_of_mapM inputs signal).mp member
    obtain ⟨stored, found, spelled, _⟩ := signalContents?_eq_some.mp found
    exact plain.signals id (List.mem_append_left _ member) stored found _ spelled
  · intro signal member
    obtain ⟨id, member, found⟩ := (mem_of_mapM outputs signal).mp member
    obtain ⟨stored, found, spelled, _⟩ := signalContents?_eq_some.mp found
    exact plain.signals id (List.mem_append_right _ member) stored found _ spelled
  · intro signal member other member' same
    obtain ⟨id, member, listed⟩ := (mem_of_mapM outputs signal).mp member
    obtain ⟨id', member', listed'⟩ := (mem_of_mapM outputs other).mp member'
    obtain ⟨stored, found, spelled, _⟩ := signalContents?_eq_some.mp listed
    obtain ⟨stored', found', spelled', _⟩ := signalContents?_eq_some.mp listed'
    -- One text has one key, and one key has one output.
    rw [← same] at spelled'
    obtain rfl := wellFormed.eq_of_name (List.mem_append_right _ member)
      (List.mem_append_right _ member') found found' (Names.eq_of_text? spelled spelled')
    exact Option.some.inj (listed.symm.trans listed')
  · intro driven member
    obtain ⟨drive, member, found⟩ := (mem_of_mapM drives driven).mp member
    obtain ⟨stored, found, spelled, read⟩ := driveContents?_eq_some.mp found
    refine (mem_of_mapM outputs _).mpr ⟨_, wellFormed.targets drive member, ?_⟩
    refine signalContents?_eq_some.mpr ⟨stored, found, spelled, ?_⟩
    rw [← wellFormed.widths drive member stored found, LogicVector.width_of_bits read]

theorem writes_of_listing (wellFormed : entity.WellFormed)
    (shown : entity.listing names = .ok text) :
    ∃ contents, entity.contents? names = some contents ∧ contents.Writes text.toList := by
  obtain ⟨name, spelled, shown⟩ := ok_of_bind shown
  obtain ⟨inputText, shownInputs, shown⟩ := ok_of_bind shown
  obtain ⟨outputText, shownOutputs, shown⟩ := ok_of_bind shown
  obtain ⟨driveTexts, shownDrives, shown⟩ := ok_of_bind shown
  cases shown
  obtain ⟨inputs, listed, inputChars⟩ := sideChars_of_list wellFormed.inputs shownInputs
  obtain ⟨outputs, listed', outputChars⟩ := sideChars_of_list wellFormed.outputs shownOutputs
  obtain ⟨drives, driven, each⟩ := mapM_some_of_ok (fun drive member _ =>
    driveContents?_of_text (wellFormed.outputs _ (wellFormed.targets drive member))) shownDrives
  refine ⟨⟨name, inputs, outputs, drives⟩, ?_, _, writesDrives_append each, ?_⟩
  · rw [contents?, Names.text_eq_ok.mp spelled, listed, listed', driven]
    rfl
  · simp [inputChars, outputChars]

/-- Vectors that are made of their bits are known once the bits are. -/
theorem values_of_drives {body : List Drive} {drives : List (String × List Logic)}
    (told : body.mapM (entity.driveContents? names) = some drives)
    (tidy : ∀ drive ∈ body, drive.value.Tidy) :
    body.map (·.value) = drives.map fun driven => .ofBits driven.2 := by
  have each := mapM_eq_some.mp told
  clear told
  induction each with
  | nil => rfl
  | cons own _ ih =>
    obtain ⟨⟨bits, made⟩, others⟩ := List.forall_mem_cons.mp tidy
    obtain ⟨_, _, _, read⟩ := driveContents?_eq_some.mp own
    rw [made, LogicVector.bits_ofBits] at read
    cases read
    rw [List.map_cons, List.map_cons, ih others, made]

end Entity

/-! ## Where plain names come from -/

theorem Plain.append {first second : String} (plain : Plain first) (plain' : Plain second) :
    Plain (first ++ second) := by
  rw [Plain, String.toList_append, List.all_append, plain, plain']
  rfl

namespace Settings

variable {settings checked : Settings}

/-- Settings that are accepted are not changed, and their suffix is plain. -/
theorem plain_of_validate (accepted : settings.validate = .ok checked) :
    checked = settings ∧ Plain settings.companionSuffix := by
  unfold validate at accepted
  split at accepted
  · cases accepted
  · split at accepted
    · cases accepted
    · next clear =>
      cases accepted
      exact ⟨rfl, by simpa [Plain, List.find?_eq_none] using clear⟩

theorem plain_of_read {source : String} (accepted : read source = .ok settings) :
    Plain settings.companionSuffix := by
  unfold read at accepted
  split at accepted
  · cases accepted
  · obtain ⟨rfl, plain⟩ := plain_of_validate accepted
    exact plain

end Settings

/-- The names of the module and of its ports are plain. -/
structure Module.PlainlyNamed (m : Module) (names : Names) : Prop where
  name : Plain (names.label m.name)
  ports : ∀ port ∈ m.ports, Plain (names.label port.name)

/-- An entity whose names are plain, or one that was built from a module whose names are, with a
suffix from settings that were read. -/
inductive Entity.Spelled (entity : Entity) (names : Names) : Prop where
  | plain : entity.PlainlyNamed names → Spelled entity names
  | built {m : Module} {settings : Settings} {source : String} {before after : Names} :
      m.build settings before = (.ok entity, after) → after.Grows names →
      m.PlainlyNamed names → Settings.read source = .ok settings → Spelled entity names

theorem Entity.Spelled.plainlyNamed {entity : Entity} {names : Names}
    (spelled : entity.Spelled names) : entity.PlainlyNamed names := by
  cases spelled with
  | plain plain => exact plain
  | built built grows plain accepted =>
    have suffix := Settings.plain_of_read accepted
    refine ⟨?_, ?_⟩
    · intro text found
      rw [(Module.buildWith_head built).1] at found
      rw [← Names.label_of_text? found]
      exact plain.name
    · intro id member signal found text called
      obtain ⟨port, listed, signal', text', found', called', named⟩ :=
        Module.signalName_of_buildWith built grows member
      cases found.symm.trans found'
      cases called.symm.trans called'
      rcases named with rfl | rfl
      · exact plain.ports port listed
      · exact (plain.ports port listed).append suffix

/-! ## No two entities are printed alike -/

/-- Entities with the same listing, each in its own table, have the same contents: the name, the
widths and names of inputs and outputs in order, and the driven outputs with their bits in order. If
nothing is set above the widths of the values, the values themselves are the same. -/
theorem Entity.listing_unambiguous {first second : Entity} {names others : Names} {text : String}
    (kept : first.check = .ok ()) (kept' : second.check = .ok ())
    (spelled : first.Spelled names) (spelled' : second.Spelled others)
    (shown : first.listing names = .ok text) (shown' : second.listing others = .ok text) :
    (∃ contents, first.contents? names = some contents ∧
        second.contents? others = some contents) ∧
      ((∀ drive ∈ first.body, drive.value.Tidy) → (∀ drive ∈ second.body, drive.value.Tidy) →
        first.body.map (·.value) = second.body.map (·.value)) := by
  have wellFormed := check_eq_ok.mp kept
  have wellFormed' := check_eq_ok.mp kept'
  obtain ⟨contents, told, writes⟩ := writes_of_listing wellFormed shown
  obtain ⟨contents', told', writes'⟩ := writes_of_listing wellFormed' shown'
  obtain rfl := writes.eq writes' (sound_of_contents wellFormed spelled.plainlyNamed told)
    (sound_of_contents wellFormed' spelled'.plainlyNamed told')
  refine ⟨⟨contents, told, told'⟩, ?_⟩
  intro tidy tidy'
  obtain ⟨_, _, _, drives⟩ := contents?_cases told
  obtain ⟨_, _, _, drives'⟩ := contents?_cases told'
  exact (values_of_drives drives tidy).trans (values_of_drives drives' tidy').symm

namespace Sample

/-- The text of a module with one inout port. -/
def twoWayText : String := "entity @B (i1$ %z) (i1$ %z0) \x7b\n    drv %z0 0\n\x7d"

/-- An entity with its output stored first. -/
def outputFirst : Entity where
  name := ⟨1⟩
  signals := ⟨[.output ⟨0⟩ .bit .dummy, .input ⟨2⟩ .bit .dummy]⟩
  inputs := [⟨1⟩]
  outputs := [⟨0⟩]
  body := [⟨⟨0⟩, .zeros 1, .dummy⟩]
  digest := .ofBytes []
  span := .dummy

def outputFirstNames : Names := ⟨["z0", "B", "z"], by decide⟩

/-- What the module is built to. -/
def inputFirst : Entity where
  name := ⟨0⟩
  signals := ⟨[.input ⟨1⟩ .bit .dummy, .companion ⟨3⟩ ⟨1⟩ .bit .dummy]⟩
  inputs := [⟨0⟩]
  outputs := [⟨1⟩]
  body := [⟨⟨1⟩, .zeros 1, .dummy⟩]
  digest := (twoWay .bit).digest
  span := .dummy

def inputFirstNames : Names := ⟨["B", "z", "C", "z0"], by decide⟩

theorem build_inputFirst : (twoWay .bit).build {} table = (.ok inputFirst, inputFirstNames) := rfl

theorem listing_inputFirst : inputFirst.check = .ok () ∧
    inputFirst.listing inputFirstNames = .ok twoWayText := by
  decide +kernel

theorem listing_outputFirst : outputFirst.check = .ok () ∧
    outputFirst.listing outputFirstNames = .ok twoWayText := by
  decide +kernel

theorem plain_twoWay : (twoWay .bit).PlainlyNamed inputFirstNames := by
  refine ⟨by decide, ?_⟩
  intro port member
  rw [List.mem_singleton.mp member]
  decide

theorem plain_outputFirst : outputFirst.PlainlyNamed outputFirstNames := by
  refine ⟨?_, ?_⟩
  · intro text found
    cases found
    decide
  · intro id member signal found text called
    rcases List.mem_cons.mp member with rfl | member
    · cases found
      cases called
      decide
    · rw [List.mem_singleton.mp member] at found
      cases found
      cases called
      decide

theorem read_empty : Settings.read "" = .ok {} := by decide +kernel

end Sample

/-- A built entity and one that stores its signals the other way round are printed alike. -/
theorem Entity.listing_unambiguous_reordered :
    (∃ contents, Sample.inputFirst.contents? Sample.inputFirstNames = some contents ∧
        Sample.outputFirst.contents? Sample.outputFirstNames = some contents) ∧
      Sample.inputFirst.body.map (·.value) = Sample.outputFirst.body.map (·.value) := by
  obtain ⟨kept, shown⟩ := Sample.listing_inputFirst
  obtain ⟨kept', shown'⟩ := Sample.listing_outputFirst
  obtain ⟨same, values⟩ := Entity.listing_unambiguous kept kept'
    (.built Sample.build_inputFirst (.refl _) Sample.plain_twoWay Sample.read_empty)
    (.plain Sample.plain_outputFirst) shown shown'
  refine ⟨same, values ?_ ?_⟩
  · intro drive member
    rw [List.mem_singleton.mp member]
    exact ⟨_, rfl⟩
  · intro drive member
    rw [List.mem_singleton.mp member]
    exact ⟨_, rfl⟩

end HdlPorts
