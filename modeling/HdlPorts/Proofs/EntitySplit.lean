import HdlPorts.Netlist.Listing
import HdlPorts.Proofs.Verdicts

/-! An entity is the split of its module.

What an entity consists of can be read off the ports of its module: which signals it has and where
they are stored, how they are listed, and which outputs are driven with what. The port loop keeps
this in step with the ports it has taken, half by half, so it holds of every entity that is built.
-/

set_option autoImplicit false

namespace HdlPorts

/-! ## What the ports say -/

namespace Port

def hasInput (port : Port) : Bool := port.direction != .output

def hasOutput (port : Port) : Bool := port.direction != .input

/-- The text by which the output half is called. -/
def outputText (names : Names) (suffix : String) (port : Port) : String :=
  match port.direction with
  | .input | .output => names.label port.name
  | .inout => companionName (names.label port.name) suffix

/-- How the output half of a port is driven: a companion with zero, an output with the value of its
initializer at the width of the type, and without an initializer with zero or not at all. -/
inductive Driven (settings : Settings) (site : Site) (port : Port) (type : SignalType)
    (id : SignalId) : Option Drive → Prop where
  | companion : port.direction = .inout →
      Driven settings site port type id (some ⟨id, .zeros type.width.toNat, port.span⟩)
  | declared {initializer : Expression} {value : LogicVector} : port.direction = .output →
      port.initializer = some initializer → initializer.fit type.width.toNat site = .ok value →
      Driven settings site port type id (some ⟨id, value, port.span⟩)
  | twoState : port.direction = .output → port.initializer = none →
      settings.twoStateDefaults = true → port.type.isTwoState = true →
      Driven settings site port type id (some ⟨id, .zeros type.width.toNat, port.span⟩)
  | undriven : port.direction = .output → port.initializer = none →
      ¬ (settings.twoStateDefaults = true ∧ port.type.isTwoState = true) →
      Driven settings site port type id none

end Port

namespace Entity

/-- The slot has the input half of the port. -/
def HasInput (entity : Entity) (port : Port) (id : SignalId) : Prop :=
  ∃ type, port.type.signalType = .ok type ∧
    entity.signal? id = some (.input port.name type port.span)

/-- The slot has the output half of the port. A companion comes directly after the input half and is
named by the port and the suffix. -/
inductive OutputAt (entity : Entity) (names : Names) (suffix : String) (port : Port)
    (type : SignalType) : SignalId → Prop where
  | output {id : SignalId} : port.direction = .output →
      entity.signal? id = some (.output port.name type port.span) →
      OutputAt entity names suffix port type id
  | companion {index : Nat} {companion : Name} : port.direction = .inout →
      entity.signal? ⟨index⟩ = some (.input port.name type port.span) →
      entity.signal? ⟨index + 1⟩ = some (.companion companion port.name type port.span) →
      names.text? companion = some (Port.companionName (names.label port.name) suffix) →
      OutputAt entity names suffix port type ⟨index + 1⟩

/-- The slot has the output half of the port, which is driven as the port says. -/
def HasOutput (entity : Entity) (settings : Settings) (names : Names) (moduleName : String)
    (port : Port) (id : SignalId) : Prop :=
  ∃ type, port.type.signalType = .ok type ∧
    entity.OutputAt names settings.companionSuffix port type id ∧
    port.Driven settings (port.site names moduleName) type id (entity.driveOf? id)

/-- The entity consists of the input halves of some ports and the output halves of others. -/
structure Splits (entity : Entity) (settings : Settings) (names : Names) (moduleName : String)
    (ins outs : List Port) : Prop where
  inputs : List.Forall₂ entity.HasInput ins entity.inputs
  outputs : List.Forall₂ (entity.HasOutput settings names moduleName) outs entity.outputs
  slots : (entity.inputs ++ entity.outputs).Perm ((List.range entity.signals.size).map Slot.mk)
  body : entity.body = entity.outputs.filterMap entity.driveOf?

/-- The entity is what the module says. Its listed signals are the halves of the ports, in order:
their names, their types and places, their slots and their drives. Every slot is listed once, and
there are no drives but those of the listed outputs. -/
structure IsSplitOf (entity : Entity) (m : Module) (settings : Settings) (names : Names) :
    Prop where
  name : entity.name = m.name
  digest : entity.digest = m.digest
  span : entity.span = m.span
  inputNames : entity.inputs.mapM (entity.signalName names) =
    .ok ((m.ports.filter Port.hasInput).map fun port => names.label port.name)
  outputNames : entity.outputs.mapM (entity.signalName names) =
    .ok ((m.ports.filter Port.hasOutput).map (Port.outputText names settings.companionSuffix))
  count : entity.inputs.length + entity.outputs.length = m.ports.length + m.inoutCount
  halves : entity.Splits settings names (names.label m.name) (m.ports.filter Port.hasInput)
    (m.ports.filter Port.hasOutput)
  widths : ∀ drive ∈ entity.body, ∃ signal, entity.signal? drive.target = some signal ∧
    drive.value.width = signal.type.width.toNat

/-! ## An entity that grows -/

variable {entity : Entity} {signal old : Signal} {drive : Option Drive} {id : SignalId}

theorem lists_withDrive? (entity : Entity) (drive : Option Drive) :
    (entity.withDrive? drive).signals = entity.signals ∧
      (entity.withDrive? drive).inputs = entity.inputs ∧
      (entity.withDrive? drive).outputs = entity.outputs ∧
      (entity.withDrive? drive).body = entity.body ++ drive.toList := by
  cases drive with
  | none => exact ⟨rfl, rfl, rfl, (List.append_nil _).symm⟩
  | some drive => exact ⟨rfl, rfl, rfl, rfl⟩

theorem size_withSignal (entity : Entity) (signal : Signal) :
    (entity.withSignal signal).signals.size = entity.signals.size + 1 := by
  unfold withSignal addSignal
  cases signal.role <;> exact List.length_append

theorem signal?_more (found : entity.signal? id = some old) (signal : Signal)
    (drive : Option Drive) :
    ((entity.withSignal signal).withDrive? drive).signal? id = some old := by
  rw [signal?, (lists_withDrive? _ drive).1]
  exact signal?_withSignal found signal

theorem target_of_driveOf? {drive : Drive} (found : entity.driveOf? id = some drive) :
    drive.target = id := by
  have hit := List.find?_some found
  exact eq_of_beq hit

/-- Older slots keep their drives. -/
theorem driveOf?_more (signal : Signal) (other : ∀ made, drive = some made → made.target ≠ id) :
    ((entity.withSignal signal).withDrive? drive).driveOf? id = entity.driveOf? id := by
  rw [driveOf?, (lists_withDrive? _ drive).2.2.2, (entity.lists_withSignal signal).2.2,
    List.find?_append, driveOf?]
  cases drive with
  | none => exact Option.or_none
  | some made => simp [other made rfl]

theorem driveOf?_more_own (signal : Signal) (free : entity.driveOf? id = none)
    (own : ∀ made, drive = some made → made.target = id) :
    ((entity.withSignal signal).withDrive? drive).driveOf? id = drive := by
  rw [driveOf?] at free
  rw [driveOf?, (lists_withDrive? _ drive).2.2.2, (entity.lists_withSignal signal).2.2,
    List.find?_append, free]
  cases drive with
  | none => rfl
  | some made => simp [own made rfl]

section Halves

variable {settings : Settings} {names : Names} {moduleName : String} {ins outs : List Port}
  {port : Port} {type : SignalType}

theorem HasInput.more (half : entity.HasInput port id) (signal : Signal) (drive : Option Drive) :
    ((entity.withSignal signal).withDrive? drive).HasInput port id := by
  obtain ⟨type, resolved, found⟩ := half
  exact ⟨type, resolved, signal?_more found signal drive⟩

theorem OutputAt.listed {suffix : String} (stored : entity.OutputAt names suffix port type id) :
    id ≠ entity.nextSlot := by
  rintro rfl
  have free := entity.nextSlot_free
  generalize entity.nextSlot = slot at stored free
  cases stored with
  | output _ found => cases found.symm.trans free
  | companion _ _ found _ => cases found.symm.trans free

theorem OutputAt.mono {larger : Entity} {suffix : String}
    (stored : entity.OutputAt names suffix port type id)
    (kept : ∀ slot signal, entity.signal? slot = some signal → larger.signal? slot = some signal) :
    larger.OutputAt names suffix port type id := by
  cases stored with
  | output direction found => exact .output direction (kept _ _ found)
  | companion direction input found text =>
    exact .companion direction (kept _ _ input) (kept _ _ found) text

theorem HasOutput.more (half : entity.HasOutput settings names moduleName port id)
    (signal : Signal) (new : ∀ made, drive = some made → made.target = entity.nextSlot) :
    ((entity.withSignal signal).withDrive? drive).HasOutput settings names moduleName port id := by
  obtain ⟨type, resolved, stored, driven⟩ := half
  have other : ∀ made, drive = some made → made.target ≠ id :=
    fun made here same => stored.listed (same.symm.trans (new made here))
  exact ⟨type, resolved, stored.mono fun _ _ found => signal?_more found signal drive,
    by rwa [driveOf?_more signal other]⟩

/-! ## One more half -/

theorem Splits.nextSlot_fresh (splits : entity.Splits settings names moduleName ins outs) :
    entity.nextSlot ∉ entity.inputs ++ entity.outputs := by
  intro member
  obtain ⟨index, bound, same⟩ := List.mem_map.mp (splits.slots.mem_iff.mp member)
  cases same
  exact Nat.lt_irrefl _ (List.mem_range.mp bound)

/-- A drive of the next slot is on none of the outputs that are there. -/
theorem Splits.other (splits : entity.Splits settings names moduleName ins outs)
    (listed : id ∈ entity.outputs)
    (new : ∀ made, drive = some made → made.target = entity.nextSlot) :
    ∀ made, drive = some made → made.target ≠ id := by
  rintro made here rfl
  rw [new made here] at listed
  exact splits.nextSlot_fresh (List.mem_append_right _ listed)

theorem Splits.nextSlot_undriven (splits : entity.Splits settings names moduleName ins outs) :
    entity.driveOf? entity.nextSlot = none := by
  cases driven : entity.driveOf? entity.nextSlot with
  | none => rfl
  | some drive =>
    -- Drives are on outputs, and the next slot is none of them.
    have member : drive ∈ entity.body := List.mem_of_find?_eq_some driven
    rw [splits.body] at member
    obtain ⟨id, output, own⟩ := List.mem_filterMap.mp member
    have same : id = entity.nextSlot :=
      (target_of_driveOf? own).symm.trans (target_of_driveOf? driven)
    rw [same] at output
    exact absurd (List.mem_append_right _ output) splits.nextSlot_fresh

theorem Splits.slots_more (splits : entity.Splits settings names moduleName ins outs)
    (signal : Signal) (drive : Option Drive) :
    (((entity.withSignal signal).withDrive? drive).inputs ++
        ((entity.withSignal signal).withDrive? drive).outputs).Perm
      ((List.range ((entity.withSignal signal).withDrive? drive).signals.size).map Slot.mk) := by
  obtain ⟨signals, inputs, outputs, _⟩ := (entity.withSignal signal).lists_withDrive? drive
  rw [signals, inputs, outputs, entity.size_withSignal, List.range_succ, List.map_append]
  exact ((entity.slots_withSignal signal).trans (splits.slots.cons _)).trans
    (List.perm_append_singleton _ _).symm

theorem Splits.addInput (splits : entity.Splits settings names moduleName ins outs)
    (resolved : port.type.signalType = .ok type) :
    (entity.withSignal (.input port.name type port.span)).Splits settings names moduleName
      (ins ++ [port]) outs := by
  obtain ⟨inputs, outputs, body⟩ := entity.lists_withSignal (.input port.name type port.span)
  replace inputs := inputs.trans (if_pos rfl)
  replace outputs := outputs.trans (if_neg (by decide : Role.input ≠ Role.output))
  have undriven : ∀ made, (none : Option Drive) = some made → made.target = entity.nextSlot :=
    fun _ impossible => by cases impossible
  refine ⟨?_, ?_, splits.slots_more _ none, ?_⟩
  · rw [inputs]
    exact List.rel_append (splits.inputs.imp fun _ _ half => half.more _ none)
      (.cons ⟨type, resolved, entity.signal?_nextSlot _⟩ .nil)
  · rw [outputs]
    exact splits.outputs.imp fun _ _ half => half.more _ undriven
  · rw [body, outputs, splits.body]
    refine List.filterMap_congr fun id member => ?_
    exact (driveOf?_more _ (splits.other member undriven)).symm

theorem Splits.addOutput (splits : entity.Splits settings names moduleName ins outs)
    (resolved : port.type.signalType = .ok type) (role : signal.role = .output)
    (stored : (entity.withSignal signal).OutputAt names settings.companionSuffix port type
      entity.nextSlot)
    (driven : port.Driven settings (port.site names moduleName) type entity.nextSlot drive) :
    ((entity.withSignal signal).withDrive? drive).Splits settings names moduleName ins
      (outs ++ [port]) := by
  obtain ⟨inputs, outputs, body⟩ := entity.lists_withSignal signal
  obtain ⟨signals, inputs', outputs', body'⟩ := (entity.withSignal signal).lists_withDrive? drive
  rw [role] at inputs outputs
  replace inputs := inputs'.trans (inputs.trans (if_neg (by decide)))
  replace outputs := outputs'.trans (outputs.trans (if_pos rfl))
  have target : ∀ made, drive = some made → made.target = entity.nextSlot := by
    rintro made rfl
    cases driven <;> rfl
  have own : ((entity.withSignal signal).withDrive? drive).driveOf? entity.nextSlot = drive :=
    driveOf?_more_own signal splits.nextSlot_undriven target
  refine ⟨?_, ?_, splits.slots_more signal drive, ?_⟩
  · rw [inputs]
    exact splits.inputs.imp fun _ _ half => half.more signal drive
  · rw [outputs]
    refine List.rel_append (splits.outputs.imp fun _ _ half => half.more signal target)
      (.cons ⟨type, resolved, stored.mono ?_, by rwa [own]⟩ .nil)
    intro slot stored found
    rw [signal?, signals]
    exact found
  · have last : List.filterMap ((entity.withSignal signal).withDrive? drive).driveOf?
        [entity.nextSlot] = drive.toList := by
      rw [List.filterMap_cons, own]
      cases drive <;> rfl
    rw [body', body, outputs, splits.body, List.filterMap_append, last]
    congr 1
    refine List.filterMap_congr fun id member => ?_
    exact (driveOf?_more signal (splits.other member target)).symm

end Halves

end Entity

/-! ## All ports -/

section Ports

variable {settings : Settings} {names final after : Names} {moduleName : String}
  {ins outs ports : List Port} {port : Port}

namespace Port

/-- What an output half is driven with comes from its origin. -/
theorem driven_of_origin {site : Site} {origin : Origin} {signal : Signal} {id : SignalId}
    {drive : Option Drive} (half : port.hasOutput = true)
    (placed : port.origin settings.twoStateDefaults site = .ok origin)
    (span : site.span = port.span) (done : signal.drive? id origin site = .ok drive) :
    port.Driven settings site signal.type id drive := by
  unfold Port.origin at placed
  cases direction : port.direction with
  | input => simp [hasOutput, direction] at half
  | inout =>
    cases initialized : port.initializer with
    | some initializer => simp [direction, initialized, Attempt.refuse] at placed
    | none =>
      simp only [direction, initialized] at placed
      cases placed
      cases done
      rw [span]
      exact .companion direction
  | output =>
    cases initialized : port.initializer with
    | some initializer =>
      simp only [direction, initialized] at placed
      cases placed
      obtain ⟨value, fitted, done⟩ := ok_of_bind done
      cases done
      rw [span]
      exact .declared direction initialized fitted
    | none =>
      simp only [direction, initialized] at placed
      by_cases zero : settings.twoStateDefaults = true ∧ port.type.isTwoState = true
      · rw [if_pos (by simp [zero])] at placed
        cases placed
        cases done
        rw [span]
        exact .twoState direction initialized zero.1 zero.2
      · rw [if_neg (by simpa using zero)] at placed
        cases placed
        cases done
        exact .undriven direction initialized zero

end Port

namespace Progress

variable {progress next : Progress}

theorem splits_takePort
    (splits : progress.entity.Splits settings final moduleName ins outs)
    (done : takePort settings moduleName progress port names = (.ok next, after))
    (grows : after.Grows final) :
    next.entity.Splits settings final moduleName (ins ++ [port].filter Port.hasInput)
      (outs ++ [port].filter Port.hasOutput) := by
  obtain ⟨plan, halves, planned, split, taken⟩ := takePort_cases done
  obtain ⟨middle, input, output⟩ := takeHalves_cases taken
  have whole := (Port.grows_split split).trans grows
  obtain ⟨_, site, resolved, placed⟩ := Port.plan_cases planned whole
  have driven {signal : Signal} {id : SignalId} {drive : Option Drive}
      (half : port.hasOutput = true) (type : signal.type = plan.type)
      (made : signal.drive? id plan.origin plan.site = .ok drive) :
      port.Driven settings (port.site final moduleName) plan.type id drive := by
    have span : plan.site.span = port.span := by rw [site]; rfl
    rw [← site, ← type]
    exact Port.driven_of_origin half placed span made
  cases direction : port.direction with
  | input =>
    have filtered : [port].filter Port.hasInput = [port] ∧ [port].filter Port.hasOutput = [] := by
      simp [Port.hasInput, Port.hasOutput, direction]
    rw [filtered.1, filtered.2, List.append_nil]
    rw [Port.split_input direction] at split
    cases split
    obtain ⟨_, rfl⟩ := takeInput_cases input
    cases output
    exact splits.addInput resolved
  | output =>
    have half : port.hasOutput = true := by simp [Port.hasOutput, direction]
    have filtered : [port].filter Port.hasInput = [] ∧ [port].filter Port.hasOutput = [port] := by
      simp [Port.hasInput, half, direction]
    rw [filtered.1, filtered.2, List.append_nil]
    rw [Port.split_output direction] at split
    cases split
    cases input
    obtain ⟨_, drive, made, rfl⟩ := takeOutput_cases output
    exact splits.addOutput resolved rfl (.output direction (Entity.signal?_nextSlot _ _))
      (driven half rfl made)
  | inout =>
    have half : port.hasOutput = true := by simp [Port.hasOutput, direction]
    have filtered : [port].filter Port.hasInput = [port] ∧
        [port].filter Port.hasOutput = [port] := by
      simp [Port.hasInput, half, direction]
    rw [filtered.1, filtered.2]
    obtain ⟨text, found⟩ := Port.text_of_split direction split
    rw [Port.split_inout direction found] at split
    cases split
    obtain ⟨_, rfl⟩ := takeInput_cases input
    obtain ⟨_, drive, made, rfl⟩ := takeOutput_cases output
    have label := Names.label_of_text? (whole.text? (Names.text_eq_ok.mp found))
    have spelled := grows.text?
      (names.text?_intern (Port.companionName text settings.companionSuffix))
    refine (splits.addInput resolved).addOutput resolved rfl ?_ (driven half rfl made)
    -- The companion is stored right after the input half.
    have slot : (progress.entity.withSignal (.input port.name plan.type port.span)).nextSlot =
        ⟨progress.entity.nextSlot.index + 1⟩ := congrArg Slot.mk (Entity.size_withSignal _ _)
    have stored := Entity.signal?_nextSlot
      (progress.entity.withSignal (.input port.name plan.type port.span))
      (.companion (names.intern (Port.companionName text settings.companionSuffix)).1 port.name
        plan.type port.span)
    rw [slot] at stored ⊢
    refine .companion direction ?_ stored (by rw [label]; exact spelled)
    exact Entity.signal?_withSignal (progress.entity.signal?_nextSlot _) _

theorem splits_takePorts
    (splits : progress.entity.Splits settings final moduleName ins outs)
    (done : takePorts settings moduleName progress ports names = (.ok next, after))
    (grows : after.Grows final) :
    next.entity.Splits settings final moduleName (ins ++ ports.filter Port.hasInput)
      (outs ++ ports.filter Port.hasOutput) := by
  induction ports generalizing progress names ins outs with
  | nil =>
    cases done
    rw [List.filter_nil, List.filter_nil, List.append_nil, List.append_nil]
    exact splits
  | cons port rest ih =>
    obtain ⟨first, middle, one, others⟩ := takePorts_cons done
    -- Companions are looked up in the final table, so what is split stays split as it grows.
    have grown := grows_takePorts settings moduleName first rest middle
    rw [others] at grown
    have further := ih (splits_takePort splits one (grown.trans grows)) others
    rw [List.append_assoc, List.append_assoc, ← List.filter_append, ← List.filter_append] at further
    exact further

theorem splits_start (m : Module) (digest : Digest) :
    (start m digest).entity.Splits settings final moduleName [] [] :=
  ⟨.nil, .nil, .refl _, rfl⟩

end Progress

end Ports

/-! ## The whole split -/

namespace Entity

variable {entity : Entity} {settings : Settings} {names : Names} {moduleName : String}
  {ins outs ports : List Port} {ids : List SignalId}

theorem signalName_of_found {id : SignalId} {signal : Signal} {text : String}
    (found : entity.signal? id = some signal) (spelled : names.text? signal.name = some text) :
    entity.signalName names id = .ok text := by
  rw [signalName, found]
  exact Names.text_eq_ok.mpr spelled

theorem mapM_signalName {half : Port → SignalId → Prop} {text : Port → String}
    (halves : List.Forall₂ half ports ids)
    (each : ∀ port ∈ ports, ∀ id, half port id → entity.signalName names id = .ok (text port)) :
    ids.mapM (entity.signalName names) = .ok (ports.map text) := by
  induction halves with
  | nil => rfl
  | @cons port id ports ids first _ ih =>
    have own := each port List.mem_cons_self id first
    have others := ih fun other member => each other (List.mem_cons_of_mem _ member)
    rw [List.mapM_cons, own]
    simp only [bind, Except.bind, others]
    rfl

theorem Splits.inputNames (splits : entity.Splits settings names moduleName ins outs)
    (holds : ∀ port ∈ ins, names.Holds port.name) :
    entity.inputs.mapM (entity.signalName names) =
      .ok (ins.map fun port => names.label port.name) := by
  refine mapM_signalName splits.inputs ?_
  rintro port member id ⟨type, _, found⟩
  exact signalName_of_found found (Names.text?_label (holds port member))

theorem Splits.outputNames (splits : entity.Splits settings names moduleName ins outs)
    (holds : ∀ port ∈ outs, names.Holds port.name) :
    entity.outputs.mapM (entity.signalName names) =
      .ok (outs.map (Port.outputText names settings.companionSuffix)) := by
  refine mapM_signalName splits.outputs ?_
  rintro port member id ⟨type, _, stored, _⟩
  rw [Port.outputText]
  cases stored with
  | output direction found =>
    rw [direction]
    exact signalName_of_found found (Names.text?_label (holds port member))
  | companion direction _ found spelled =>
    rw [direction]
    exact signalName_of_found found spelled

end Entity

theorem Port.length_halves (ports : List Port) :
    (ports.filter Port.hasInput).length + (ports.filter Port.hasOutput).length =
      ports.length + ports.countP (·.direction == .inout) := by
  induction ports with
  | nil => rfl
  | cons port rest ih =>
    rw [List.filter_cons, List.filter_cons, List.countP_cons]
    cases direction : port.direction <;> simp [hasInput, hasOutput, direction] <;> omega

namespace Module

/-- An entity is exactly the split of the module that it was built from. -/
theorem build_splits {m : Module} {settings : Settings} {names after : Names} {entity : Entity}
    (built : m.build settings names = (.ok entity, after)) : entity.IsSplitOf m settings after := by
  obtain ⟨moduleName, progress, found, taken, rfl, passed⟩ := buildWith_cases built
  have entered := entered_of_build built
  have grows := m.grows_buildWith m.digest settings names
  rw [show m.buildWith m.digest settings names = _ from built] at grows
  have own := Names.label_of_text? (grows.text? (Names.text_eq_ok.mp found))
  have head := Progress.takePorts_head taken
  -- The widths of the drives are among the rules that the last check has passed.
  have wellFormed := Entity.check_eq_ok.mp passed
  have splits := Progress.splits_takePorts (Progress.splits_start m m.digest) taken (.refl after)
  rw [List.nil_append, List.nil_append, ← own] at splits
  refine ⟨head.name, head.digest, head.span, ?_, ?_, ?_, splits, ?_⟩
  · exact splits.inputNames fun port member => entered.ports port (List.mem_filter.mp member).1
  · exact splits.outputNames fun port member => entered.ports port (List.mem_filter.mp member).1
  · rw [← splits.inputs.length_eq, ← splits.outputs.length_eq]
    exact Port.length_halves m.ports
  · intro drive member
    obtain ⟨signal, stored, _⟩ := wellFormed.outputs _ (wellFormed.targets drive member)
    exact ⟨signal, stored, wellFormed.widths drive member signal stored⟩

end Module

namespace Sample

/-- A module with a port of each kind. -/
def boundary : Module :=
  ⟨⟨0⟩, [⟨⟨1⟩, .input, .byte, none, .dummy⟩, ⟨⟨2⟩, .inout, .logic, none, .dummy⟩,
    ⟨⟨3⟩, .output, .byte, some (.literal (.fill .one)), .dummy⟩,
    ⟨⟨4⟩, .output, .int, none, .dummy⟩, ⟨⟨5⟩, .output, .logic, none, .dummy⟩], .dummy⟩

def boundaryNames : Names := ⟨["M", "a", "z", "y", "q", "r"], by decide⟩

theorem isOk_boundary : (boundary.build {} boundaryNames).1.isOk = true := by decide +kernel

end Sample

/-- The module with a port of each kind is split into two inputs and four outputs. -/
theorem Module.build_splits_boundary :
    ∃ entity after, Sample.boundary.build {} Sample.boundaryNames = (.ok entity, after) ∧
      entity.IsSplitOf Sample.boundary {} after ∧
      entity.inputs.length + entity.outputs.length = 6 := by
  cases built : Sample.boundary.build {} Sample.boundaryNames with
  | mk result after =>
    have ok := Sample.isOk_boundary
    rw [built] at ok
    cases result with
    | error stop => cases ok
    | ok entity =>
      have split := Module.build_splits built
      exact ⟨entity, after, rfl, split, split.count⟩

end HdlPorts
