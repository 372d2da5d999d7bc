import HdlPorts.Proofs.EntitySplit
import HdlPorts.Proofs.Traversals
import HdlPorts.Proofs.ValueTexts

/-! What is known of every entity that was built.

Its drives hold vectors as the operations make them, and its signals are called by names of ports,
with the suffix or without. So nothing is missing when it is printed: every entity that was built
has a listing, in the table that its build ended with and in every later one.
-/

set_option autoImplicit false

namespace HdlPorts

/-! ## Values -/

/-- The vector has the words it needs and nothing above its width. -/
def LogicVector.Tidy (v : LogicVector) : Prop := ∃ bits, v = ofBits bits

theorem LogicVector.tidy_of_extend {v wider : LogicVector} {width : Nat}
    (done : v.extend width = .ok wider) : wider.Tidy := by
  unfold extend at done
  split at done
  · obtain ⟨bits, _, done⟩ := ok_of_bind done
    cases done
    exact ⟨_, rfl⟩
  · cases done

theorem LogicVector.Tidy.complete {v : LogicVector} (tidy : v.Tidy) : v.Complete := by
  obtain ⟨bits, rfl⟩ := tidy
  exact complete_ofBits bits

theorem LogicVector.sizedText_of_complete {v : LogicVector} (complete : v.Complete) :
    ∃ text, v.sizedText = .ok text := by
  rw [sizedText, digits, bits_of_complete complete]
  exact ⟨_, rfl⟩

theorem LogicVector.valueText_of_complete {v : LogicVector} (complete : v.Complete) :
    ∃ text, v.valueText = .ok text := by
  rw [valueText, toUInt64?_of_complete complete]
  split
  · exact sizedText_of_complete complete
  · exact ⟨_, rfl⟩

theorem Expression.tidy_of_fit {initializer : Expression} {width : Nat} {site : Site}
    {value : LogicVector} (fitted : initializer.fit width site = .ok value) : value.Tidy := by
  obtain ⟨own, _, fitted⟩ := ok_of_bind fitted
  split at fitted
  · cases fitted
  · exact LogicVector.tidy_of_extend (Attempt.ok_of_ofChecked fitted)

theorem Port.Driven.tidy {settings : Settings} {site : Site} {port : Port} {type : SignalType}
    {id : SignalId} {drive : Drive} (driven : port.Driven settings site type id (some drive)) :
    drive.value.Tidy := by
  cases driven with
  | companion | twoState => exact ⟨_, rfl⟩
  | declared _ _ fitted => exact Expression.tidy_of_fit fitted

namespace Entity

variable {entity : Entity} {settings : Settings} {names : Names} {moduleName : String}
  {ins outs : List Port}

theorem Splits.tidy (splits : entity.Splits settings names moduleName ins outs) :
    ∀ drive ∈ entity.body, drive.value.Tidy := by
  intro drive member
  rw [splits.body] at member
  obtain ⟨id, output, found⟩ := List.mem_filterMap.mp member
  obtain ⟨port, _, type, _, _, driven⟩ := exists_of_forall₂ splits.outputs output
  rw [found] at driven
  exact driven.tidy

/-- A listed signal is called by the name of a port, with the suffix or without. -/
theorem Splits.signalName (splits : entity.Splits settings names moduleName ins outs)
    (holds : ∀ port ∈ ins ++ outs, names.Holds port.name) {id : SignalId}
    (member : id ∈ entity.inputs ++ entity.outputs) :
    ∃ port ∈ ins ++ outs, ∃ signal text, entity.signal? id = some signal ∧
      names.text? signal.name = some text ∧ (text = names.label port.name ∨
        text = Port.companionName (names.label port.name) settings.companionSuffix) := by
  rcases List.mem_append.mp member with input | output
  · obtain ⟨port, listed, type, _, found⟩ := exists_of_forall₂ splits.inputs input
    have listed := List.mem_append_left outs listed
    exact ⟨port, listed, _, _, found, Names.text?_label (holds port listed), .inl rfl⟩
  · obtain ⟨port, listed, type, _, stored, _⟩ := exists_of_forall₂ splits.outputs output
    have listed := List.mem_append_right ins listed
    cases stored with
    | output _ found =>
      exact ⟨port, listed, _, _, found, Names.text?_label (holds port listed), .inl rfl⟩
    | companion _ _ found spelled => exact ⟨port, listed, _, _, found, spelled, .inr rfl⟩

end Entity

namespace Module

variable {m : Module} {digest : Digest} {settings : Settings} {names after later : Names}
  {entity : Entity}

theorem splits_of_buildWith (built : m.buildWith digest settings names = (.ok entity, after))
    (grows : after.Grows later) :
    ∃ moduleName, entity.Splits settings later moduleName (m.ports.filter Port.hasInput)
      (m.ports.filter Port.hasOutput) := by
  obtain ⟨moduleName, progress, _, taken, rfl, _⟩ := buildWith_cases built
  exact ⟨moduleName, Progress.splits_takePorts (Progress.splits_start m digest) taken grows⟩

/-- Listed signals of an entity are called by names of the module's ports. -/
theorem signalName_of_buildWith (built : m.buildWith digest settings names = (.ok entity, after))
    (grows : after.Grows later) {id : SignalId} (member : id ∈ entity.inputs ++ entity.outputs) :
    ∃ port ∈ m.ports, ∃ signal text, entity.signal? id = some signal ∧
      later.text? signal.name = some text ∧ (text = later.label port.name ∨
        text = Port.companionName (later.label port.name) settings.companionSuffix) := by
  obtain ⟨moduleName, splits⟩ := splits_of_buildWith built grows
  have entered := (entered_of_build built).grows grows
  have own {port : Port} (listed : port ∈ m.ports.filter Port.hasInput ++
      m.ports.filter Port.hasOutput) : port ∈ m.ports := by
    rcases List.mem_append.mp listed with input | output
    · exact (List.mem_filter.mp input).1
    · exact (List.mem_filter.mp output).1
  obtain ⟨port, listed, named⟩ :=
    splits.signalName (fun port listed => entered.ports port (own listed)) member
  exact ⟨port, own listed, named⟩

end Module

/-! ## Listings -/

namespace Entity

variable {entity : Entity} {names : Names}

theorem signalList_ok (ids : List SignalId)
    (named : ∀ id ∈ ids, ∃ text, entity.signalName names id = .ok text) :
    ∃ text, entity.signalList names ids = .ok text := by
  obtain ⟨texts, each⟩ : ∃ texts, ids.mapM (entity.signalText names) = .ok texts := by
    refine mapM_ok fun id member => ?_
    obtain ⟨text, found⟩ := named id member
    rw [signalText, found]
    exact ⟨_, rfl⟩
  rw [signalList, each]
  exact ⟨_, rfl⟩

theorem listing_ok (own : names.Holds entity.name)
    (named : ∀ id ∈ entity.inputs ++ entity.outputs, ∃ text, entity.signalName names id = .ok text)
    (targets : ∀ drive ∈ entity.body, drive.target ∈ entity.outputs)
    (complete : ∀ drive ∈ entity.body, drive.value.Complete) :
    ∃ text, entity.listing names = .ok text := by
  obtain ⟨inputs, listed⟩ := signalList_ok entity.inputs fun id member =>
    named id (List.mem_append_left _ member)
  obtain ⟨outputs, listed'⟩ := signalList_ok entity.outputs fun id member =>
    named id (List.mem_append_right _ member)
  obtain ⟨drives, driven⟩ : ∃ drives, entity.body.mapM (entity.driveText names) = .ok drives := by
    refine mapM_ok fun drive member => ?_
    obtain ⟨text, found⟩ := named _ (List.mem_append_right _ (targets drive member))
    obtain ⟨value, shown⟩ := LogicVector.valueText_of_complete (complete drive member)
    rw [driveText, found]
    simp only [bind, Except.bind, shown]
    exact ⟨_, rfl⟩
  rw [listing, Names.text_label own]
  simp only [bind, Except.bind, listed, listed', driven]
  exact ⟨_, rfl⟩

end Entity

/-- An entity that was built has a listing from then on. -/
theorem Module.listing_of_buildWith {m : Module} {digest : Digest} {settings : Settings}
    {names after later : Names} {entity : Entity}
    (built : m.buildWith digest settings names = (.ok entity, after)) (grows : after.Grows later) :
    ∃ text, entity.listing later = .ok text := by
  obtain ⟨_, splits⟩ := splits_of_buildWith built grows
  obtain ⟨_, _, _, _, rfl, passed⟩ := buildWith_cases built
  refine Entity.listing_ok ?_ ?_ (Entity.check_eq_ok.mp passed).targets
    fun drive member => (splits.tidy drive member).complete
  · rw [(buildWith_head built).1]
    exact ((entered_of_build built).grows grows).name
  · intro id member
    obtain ⟨_, _, signal, text, found, spelled, _⟩ := signalName_of_buildWith built grows member
    exact ⟨text, Entity.signalName_of_found found spelled⟩

end HdlPorts
