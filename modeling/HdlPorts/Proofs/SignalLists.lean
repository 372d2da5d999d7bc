import HdlPorts.Proofs.Arenas
import HdlPorts.Proofs.EntityChecks

/-! The two lists of an entity part its signals.

An entity is put together by adding signals and drives, in any order and whatever they are. A signal
is listed under its role in the moment in which it is stored, so each list names the slots of one
role in the order of the arena. No rule about names or drives is needed for that, and none about what
is added: whatever else the check finds wrong with such an entity, it is never a role.
-/

set_option autoImplicit false

namespace HdlPorts

/-- What can be added to an entity. -/
inductive Addition where
  | signal (signal : Signal)
  | drive (drive : Drive)

/-- The signals among some additions, in order. -/
def Addition.signals : List Addition → List Signal
  | [] => []
  | .signal added :: rest => added :: signals rest
  | .drive _ :: rest => signals rest

namespace Entity

/-- Add one thing after another. Gives the slots of the signals, in order. -/
def addAll (entity : Entity) : List Addition → List SignalId × Entity
  | [] => ([], entity)
  | .signal signal :: rest =>
    let (id, entity) := entity.addSignal signal
    let (ids, entity) := entity.addAll rest
    (id :: ids, entity)
  | .drive drive :: rest => (entity.addDrive drive).addAll rest

/-- The slots whose signals have a role, in the order of the arena. -/
def slotsOf (entity : Entity) (role : Role) : List SignalId :=
  (entity.signals.entries.filter (·.2.role = role)).map (·.1)

/-- Each list consists of the slots of its role. -/
structure Partitioned (entity : Entity) : Prop where
  inputs : entity.inputs = entity.slotsOf .input
  outputs : entity.outputs = entity.slotsOf .output

variable {entity : Entity} {signal old : Signal} {drive : Drive} {id : SignalId} {role : Role}

/-! ## Slots of a role -/

theorem mem_slotsOf : id ∈ entity.slotsOf role ↔ entity.HasRole role id := by
  simp only [slotsOf, List.mem_map, List.mem_filter, Prod.exists, decide_eq_true_eq]
  constructor
  · rintro ⟨_, signal, ⟨stored, own⟩, rfl⟩
    exact ⟨signal, Arena.mem_entries.mp stored, own⟩
  · rintro ⟨signal, found, own⟩
    exact ⟨id, signal, ⟨Arena.mem_entries.mpr found, own⟩, rfl⟩

theorem pairwise_slotsOf (entity : Entity) (role : Role) :
    (entity.slotsOf role).Pairwise fun first second => first.index < second.index :=
  List.pairwise_map.mpr (entity.signals.entries_ordered.sublist List.filter_sublist)

theorem entries_withSignal (entity : Entity) (signal : Signal) :
    (entity.withSignal signal).signals.entries =
      entity.signals.entries ++ [(entity.nextSlot, signal)] := by
  rw [signals_withSignal, Arena.entries_alloc]
  rfl

theorem slotsOf_withSignal (entity : Entity) (signal : Signal) (role : Role) :
    (entity.withSignal signal).slotsOf role =
      if signal.role = role then entity.slotsOf role ++ [entity.nextSlot]
      else entity.slotsOf role := by
  rw [slotsOf, entries_withSignal, List.filter_append, List.map_append]
  split
  · next own => simp [slotsOf, own]
  · next other => simp [slotsOf, other]

/-! ## One more signal or drive -/

theorem Partitioned.withSignal (partitioned : entity.Partitioned) (signal : Signal) :
    (entity.withSignal signal).Partitioned := by
  obtain ⟨inputs, outputs, _⟩ := entity.lists_withSignal signal
  constructor
  · rw [inputs, slotsOf_withSignal, partitioned.inputs]
  · rw [outputs, slotsOf_withSignal, partitioned.outputs]

theorem Partitioned.addDrive (partitioned : entity.Partitioned) (drive : Drive) :
    (entity.addDrive drive).Partitioned :=
  ⟨partitioned.inputs, partitioned.outputs⟩

theorem partitioned_empty (name : Name) (digest : Digest) (span : Span) :
    (empty name digest span).Partitioned :=
  ⟨rfl, rfl⟩

/-- The check finds each listed signal under the role that it is listed for. -/
theorem Partitioned.check_ne_roleMismatch (partitioned : entity.Partitioned) (id : SignalId) :
    entity.check ≠ .refuse (.roleMismatch id) := by
  intro reported
  obtain ⟨before, item, after, split, _, breaks⟩ := entity.check_verdict.refused_iff.mp reported
  have member : item ∈ entity.items := split ▸ List.mem_append_right _ List.mem_cons_self
  cases breaks with
  | @role role _ wrong =>
    refine wrong (mem_slotsOf.mp ?_)
    rw [items, List.append_assoc] at member
    rcases List.mem_append.mp member with input | member
    · obtain ⟨_, listed, ⟨⟩⟩ := List.mem_map.mp input
      rwa [← partitioned.inputs]
    · rcases List.mem_append.mp member with output | driven
      · obtain ⟨_, listed, ⟨⟩⟩ := List.mem_map.mp output
        rwa [← partitioned.outputs]
      · obtain ⟨_, _, ⟨⟩⟩ := List.mem_map.mp driven

/-! ## All additions -/

theorem addAll_signal (entity : Entity) (signal : Signal) (rest : List Addition) :
    entity.addAll (.signal signal :: rest) =
      (entity.nextSlot :: ((entity.withSignal signal).addAll rest).1,
        ((entity.withSignal signal).addAll rest).2) := by
  rw [addAll, addSignal_eq]

theorem Partitioned.addAll (partitioned : entity.Partitioned) (additions : List Addition) :
    (entity.addAll additions).2.Partitioned := by
  induction additions generalizing entity with
  | nil => exact partitioned
  | cons addition rest ih =>
    cases addition with
    | signal signal =>
      rw [addAll_signal]
      exact ih (partitioned.withSignal signal)
    | drive drive => exact ih (partitioned.addDrive drive)

/-- A slot keeps its signal whatever is added. -/
theorem signal?_addAll (found : entity.signal? id = some old) (additions : List Addition) :
    (entity.addAll additions).2.signal? id = some old := by
  induction additions generalizing entity with
  | nil => exact found
  | cons addition rest ih =>
    cases addition with
    | signal signal =>
      rw [addAll_signal]
      exact ih (signal?_withSignal found signal)
    | drive drive => exact @ih (entity.addDrive drive) found

/-- Each slot that is handed out stands for the signal that it was handed out for. -/
theorem forall₂_addAll (entity : Entity) (additions : List Addition) :
    List.Forall₂ (fun id signal => (entity.addAll additions).2.signal? id = some signal)
      (entity.addAll additions).1 (Addition.signals additions) := by
  induction additions generalizing entity with
  | nil => exact .nil
  | cons addition rest ih =>
    cases addition with
    | signal signal =>
      rw [addAll_signal]
      exact .cons (signal?_addAll (entity.signal?_nextSlot signal) rest) (ih _)
    | drive drive => exact ih (entity.addDrive drive)

/-- What is added comes after what was there, in the order in which it is added. -/
theorem entries_addAll (entity : Entity) (additions : List Addition) :
    (entity.addAll additions).2.signals.entries =
      entity.signals.entries ++ (entity.addAll additions).1.zip (Addition.signals additions) := by
  induction additions generalizing entity with
  | nil => exact (List.append_nil _).symm
  | cons addition rest ih =>
    cases addition with
    | signal signal =>
      rw [addAll_signal, ih, entries_withSignal, List.append_assoc]
      rfl
    | drive drive => exact ih (entity.addDrive drive)

/-- However an entity is put together, its inputs are the slots of signals with the role of an input
and its outputs those with the role of an output, both in increasing order; the arena holds what was
added in the order in which it was, under the slots that were handed out; each of these slots keeps
its signal whatever is added later; and the check finds no signal listed under the wrong role. -/
theorem additions_partition (name : Name) (digest : Digest) (span : Span)
    (additions : List Addition) :
    let (ids, entity) := (empty name digest span).addAll additions
    (entity.inputs.Pairwise (fun first second => first.index < second.index) ∧
        ∀ id, id ∈ entity.inputs ↔ entity.HasRole .input id) ∧
      (entity.outputs.Pairwise (fun first second => first.index < second.index) ∧
        ∀ id, id ∈ entity.outputs ↔ entity.HasRole .output id) ∧
      entity.signals.entries = ids.zip (Addition.signals additions) ∧
      (∀ more, List.Forall₂ (fun id signal => (entity.addAll more).2.signal? id = some signal)
        ids (Addition.signals additions)) ∧
      ∀ id, entity.check ≠ .refuse (.roleMismatch id) := by
  have partitioned := (partitioned_empty name digest span).addAll additions
  refine ⟨⟨?_, ?_⟩, ⟨?_, ?_⟩, ?_, ?_, partitioned.check_ne_roleMismatch⟩
  · rw [partitioned.inputs]
    exact pairwise_slotsOf _ _
  · intro id
    rw [partitioned.inputs]
    exact mem_slotsOf
  · rw [partitioned.outputs]
    exact pairwise_slotsOf _ _
  · intro id
    rw [partitioned.outputs]
    exact mem_slotsOf
  · exact entries_addAll _ additions
  · intro more
    exact (forall₂_addAll _ additions).imp fun _ _ found => signal?_addAll found more

/-- Three signals of one name and a drive of a slot that is not there: the outputs are listed. -/
example :
    let port := Signal.output ⟨1⟩ .bit .dummy
    let (ids, entity) := (empty ⟨0⟩ (.ofBytes []) .dummy).addAll
      [.signal port, .drive ⟨⟨7⟩, .zeros 2, .dummy⟩, .signal { port with role := .input },
        .signal port]
    ids = [⟨0⟩, ⟨1⟩, ⟨2⟩] ∧ entity.inputs = [⟨1⟩] ∧ entity.outputs = [⟨0⟩, ⟨2⟩] :=
  ⟨rfl, rfl, rfl⟩

end Entity

end HdlPorts
