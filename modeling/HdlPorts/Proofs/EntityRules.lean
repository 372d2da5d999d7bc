import HdlPorts.Netlist.WellFormed
import HdlPorts.Proofs.Attempts
import HdlPorts.Proofs.PortSteps
import Mathlib.Data.List.Nodup
import Mathlib.Data.List.Pairwise

/-! The rules of an entity, and why building keeps them.

The check scans lists and remembers what it has seen. What it looks for can be said without an
order: the rules are properties of the lists as a whole. They hold of an entity without signals,
and of an entity with one more signal or drive if the new name and the new target are fresh.
-/

set_option autoImplicit false

namespace HdlPorts.Entity

variable {entity : Entity} {signal : Signal} {drive : Drive} {id : SignalId}

/-- The names of listed signals. -/
def namesOf (entity : Entity) (ids : List SignalId) : List Name :=
  ids.filterMap fun id => (entity.signal? id).map (·.name)

def HasRole (entity : Entity) (role : Role) (id : SignalId) : Prop :=
  ∃ signal, entity.signal? id = some signal ∧ signal.role = role

/-- The rules an entity keeps. -/
structure WellFormed (entity : Entity) : Prop where
  inputs : ∀ id ∈ entity.inputs, entity.HasRole .input id
  outputs : ∀ id ∈ entity.outputs, entity.HasRole .output id
  names : (entity.namesOf (entity.inputs ++ entity.outputs)).Nodup
  targets : ∀ drive ∈ entity.body, drive.target ∈ entity.outputs
  single : (entity.body.map (·.target)).Nodup
  widths : ∀ drive ∈ entity.body, ∀ signal, entity.signal? drive.target = some signal →
    drive.value.width = signal.type.width.toNat

/-! ## The check decides the rules -/

theorem namesOf_cons {rest : List SignalId} (found : entity.signal? id = some signal) :
    entity.namesOf (id :: rest) = signal.name :: entity.namesOf rest := by
  simp [namesOf, found]

theorem namesOf_append (first second : List SignalId) :
    entity.namesOf (first ++ second) = entity.namesOf first ++ entity.namesOf second :=
  List.filterMap_append

theorem checkListed_eq_ok {role : Role} {seen result : List Name} {ids : List SignalId}
    (nodup : seen.Nodup) :
    entity.checkListed role seen ids = .ok result ↔
      (∀ id ∈ ids, entity.HasRole role id) ∧ ((entity.namesOf ids).reverse ++ seen).Nodup ∧
        result = (entity.namesOf ids).reverse ++ seen := by
  induction ids generalizing seen with
  | nil => simp [checkListed, namesOf, nodup, eq_comm]
  | cons id rest ih =>
    rw [checkListed]
    cases found : entity.signal? id with
    | none => simp [Attempt.refuse, HasRole, found]
    | some signal =>
      -- Names that were seen are put in front, so they pile up in reverse.
      have whole : (entity.namesOf (id :: rest)).reverse ++ seen =
          (entity.namesOf rest).reverse ++ (signal.name :: seen) := by
        rw [namesOf_cons found, List.reverse_cons, List.append_assoc, List.singleton_append]
      rw [whole, List.forall_mem_cons]
      by_cases role_eq : signal.role = role
      · have own : entity.HasRole role id := ⟨signal, found, role_eq⟩
        by_cases member : signal.name ∈ seen
        · have repeated : ¬ ((entity.namesOf rest).reverse ++ (signal.name :: seen)).Nodup :=
            fun nodup => (List.nodup_cons.mp nodup.of_append_right).1 member
          simp [role_eq, member, Attempt.refuse, repeated]
        · simp [role_eq, member, own, ih (List.nodup_cons.mpr ⟨member, nodup⟩)]
      · have other : ¬ entity.HasRole role id := by
          rintro ⟨signal', found', same⟩
          cases found.symm.trans found'
          exact role_eq same
        simp [role_eq, Attempt.refuse, other]

theorem checkDrives_eq_ok {driven : List SignalId} {body : List Drive} :
    entity.checkDrives driven body = .ok () ↔
      (∀ drive ∈ body, drive.target ∈ entity.outputs ∧ drive.target ∉ driven ∧
        ∃ signal, entity.signal? drive.target = some signal ∧
          drive.value.width = signal.type.width.toNat) ∧
      (body.map (·.target)).Nodup := by
  induction body generalizing driven with
  | nil => simp [checkDrives]
  | cons drive rest ih =>
    rw [checkDrives, List.forall_mem_cons, List.map_cons, List.nodup_cons]
    by_cases output : drive.target ∈ entity.outputs
    · by_cases before : drive.target ∈ driven
      · simp [output, before, Attempt.refuse]
      · rw [if_neg (not_not.mpr output), if_neg before]
        cases found : entity.signal? drive.target with
        | none =>
          have missing : entity.signals.get drive.target = .error .unknownSlot := by
            simp only [Arena.get, show entity.signals.get? drive.target = none from found]
          simp [missing]
        | some signal =>
          rw [Arena.get_eq_ok.mpr found]
          by_cases width : drive.value.width = signal.type.width.toNat
          · simp only [if_neg (not_not.mpr width), ih, List.mem_cons, not_or]
            constructor
            · rintro ⟨others, nodup⟩
              -- Later drives were checked against this target, so it is not among theirs.
              have fresh : drive.target ∉ rest.map (·.target) := by
                intro member
                obtain ⟨other, member, same⟩ := List.mem_map.mp member
                exact (others other member).2.1.1 same
              refine ⟨⟨⟨output, before, signal, rfl, width⟩, ?_⟩, fresh, nodup⟩
              intro other member
              obtain ⟨target, unseen, fits⟩ := others other member
              exact ⟨target, unseen.2, fits⟩
            · rintro ⟨⟨_, others⟩, fresh, nodup⟩
              refine ⟨?_, nodup⟩
              intro other member
              obtain ⟨target, unseen, fits⟩ := others other member
              have different : other.target ≠ drive.target :=
                fun same => fresh (List.mem_map.mpr ⟨other, member, same⟩)
              exact ⟨target, ⟨different, unseen⟩, fits⟩
          · simp [width, Attempt.refuse]
    · simp [output, Attempt.refuse]

/-- The check passes exactly the entities that keep the rules. -/
theorem check_eq_ok : entity.check = .ok () ↔ entity.WellFormed := by
  have same : ((entity.namesOf entity.outputs).reverse ++
      ((entity.namesOf entity.inputs).reverse ++ [])).Perm
      (entity.namesOf (entity.inputs ++ entity.outputs)) := by
    rw [List.append_nil, namesOf_append]
    exact ((List.reverse_perm _).append (List.reverse_perm _)).trans List.perm_append_comm
  constructor
  · intro passed
    obtain ⟨_, first, passed⟩ := ok_of_bind passed
    obtain ⟨_, second, third⟩ := ok_of_bind passed
    obtain ⟨inputs, nodup, rfl⟩ := (checkListed_eq_ok List.nodup_nil).mp first
    obtain ⟨outputs, names, _⟩ := (checkListed_eq_ok nodup).mp second
    obtain ⟨drives, single⟩ := checkDrives_eq_ok.mp third
    refine ⟨inputs, outputs, same.nodup_iff.mp names, fun drive member => (drives drive member).1,
      single, ?_⟩
    intro drive member signal found
    obtain ⟨_, _, target, found', width⟩ := drives drive member
    cases found.symm.trans found'
    exact width
  · intro wellFormed
    have names := same.nodup_iff.mpr wellFormed.names
    have first : entity.checkListed .input [] entity.inputs = .ok _ :=
      (checkListed_eq_ok List.nodup_nil).mpr
        ⟨wellFormed.inputs, names.of_append_right, rfl⟩
    have second : entity.checkListed .output _ entity.outputs = .ok _ :=
      (checkListed_eq_ok names.of_append_right).mpr ⟨wellFormed.outputs, names, rfl⟩
    rw [check, first]
    simp only [bind, Except.bind, second]
    refine checkDrives_eq_ok.mpr ⟨?_, wellFormed.single⟩
    intro drive member
    have output := wellFormed.targets drive member
    obtain ⟨signal, found, _⟩ := wellFormed.outputs _ output
    exact ⟨output, List.not_mem_nil, signal, found, wellFormed.widths drive member signal found⟩

/-! ## More signals and drives -/

theorem signal?_withSignal {old : Signal} (found : entity.signal? id = some old)
    (signal : Signal) : (entity.withSignal signal).signal? id = some old := by
  have kept : (entity.signals.items ++ [signal])[id.index]? = some old := by
    rw [List.getElem?_append_left (List.getElem?_eq_some_iff.mp found).1]
    exact found
  unfold withSignal addSignal
  cases signal.role <;> exact kept

theorem signal?_nextSlot (entity : Entity) (signal : Signal) :
    (entity.withSignal signal).signal? entity.nextSlot = some signal := by
  have last : (entity.signals.items ++ [signal])[entity.signals.items.length]? = some signal :=
    List.getElem?_concat_length
  unfold withSignal addSignal
  cases signal.role <;> exact last

theorem nextSlot_free (entity : Entity) : entity.signal? entity.nextSlot = none :=
  List.getElem?_eq_none (Nat.le_refl _)

theorem signals_withSignal (entity : Entity) (signal : Signal) :
    (entity.withSignal signal).signals = (entity.signals.alloc signal).2 := by
  unfold withSignal addSignal
  cases signal.role <;> rfl

theorem items_withSignal (entity : Entity) (signal : Signal) :
    (entity.withSignal signal).signals.items = entity.signals.items ++ [signal] :=
  congrArg Arena.items (entity.signals_withSignal signal)

theorem lists_withSignal (entity : Entity) (signal : Signal) :
    (entity.withSignal signal).inputs =
        (if signal.role = .input then entity.inputs ++ [entity.nextSlot] else entity.inputs) ∧
      (entity.withSignal signal).outputs =
        (if signal.role = .output then entity.outputs ++ [entity.nextSlot] else entity.outputs) ∧
      (entity.withSignal signal).body = entity.body := by
  unfold withSignal addSignal
  cases signal.role <;> exact ⟨rfl, rfl, rfl⟩

theorem HasRole.withSignal {role : Role} (listed : entity.HasRole role id) (signal : Signal) :
    (entity.withSignal signal).HasRole role id := by
  obtain ⟨old, found, same⟩ := listed
  exact ⟨old, signal?_withSignal found signal, same⟩

theorem hasRole_nextSlot (entity : Entity) (signal : Signal) :
    (entity.withSignal signal).HasRole signal.role entity.nextSlot :=
  ⟨signal, entity.signal?_nextSlot signal, rfl⟩

/-- Listed signals are on one of the two sides. -/
theorem WellFormed.listed (wellFormed : entity.WellFormed)
    (member : id ∈ entity.inputs ++ entity.outputs) : ∃ signal, entity.signal? id = some signal := by
  rcases List.mem_append.mp member with input | output
  · obtain ⟨signal, found, _⟩ := wellFormed.inputs id input
    exact ⟨signal, found⟩
  · obtain ⟨signal, found, _⟩ := wellFormed.outputs id output
    exact ⟨signal, found⟩

/-- One name has one listed signal. -/
theorem WellFormed.eq_of_name {stored other : Signal} {id' : SignalId}
    (wellFormed : entity.WellFormed) (member : id ∈ entity.inputs ++ entity.outputs)
    (member' : id' ∈ entity.inputs ++ entity.outputs) (found : entity.signal? id = some stored)
    (found' : entity.signal? id' = some other) (same : stored.name = other.name) : id = id' := by
  have apart := List.pairwise_filterMap.mp wellFormed.names
  have : Std.Symm fun first second => ∀ name, (entity.signal? first).map (·.name) = some name →
      ∀ name', (entity.signal? second).map (·.name) = some name' → name ≠ name' :=
    ⟨fun _ _ apart _ first _ second => (apart _ second _ first).symm⟩
  by_contra different
  exact apart.forall member member' different _ (by rw [found]; rfl) _ (by rw [found']; rfl) same

/-- Whichever side a new signal is listed on, one slot is added to the boundary. -/
theorem slots_withSignal (entity : Entity) (signal : Signal) :
    ((entity.withSignal signal).inputs ++ (entity.withSignal signal).outputs).Perm
      (entity.nextSlot :: (entity.inputs ++ entity.outputs)) := by
  obtain ⟨inputs, outputs, _⟩ := entity.lists_withSignal signal
  rw [inputs, outputs]
  cases signal.role with
  | input =>
    simp only [if_true, reduceCtorEq, if_false, List.append_assoc]
    exact List.perm_middle
  | output =>
    simp only [if_true, reduceCtorEq, if_false, ← List.append_assoc]
    exact List.perm_append_comm

/-- One more signal adds its name to those on the boundary. -/
theorem WellFormed.boundary (wellFormed : entity.WellFormed) (signal : Signal) :
    ((entity.withSignal signal).namesOf
        ((entity.withSignal signal).inputs ++ (entity.withSignal signal).outputs)).Perm
      (signal.name :: entity.namesOf (entity.inputs ++ entity.outputs)) := by
  have older : (entity.withSignal signal).namesOf (entity.inputs ++ entity.outputs) =
      entity.namesOf (entity.inputs ++ entity.outputs) := by
    refine List.filterMap_congr fun id member => ?_
    obtain ⟨old, found⟩ := wellFormed.listed member
    rw [signal?_withSignal found, found]
  refine ((entity.slots_withSignal signal).filterMap _).trans ?_
  rw [← older]
  exact .of_eq (namesOf_cons (entity.signal?_nextSlot signal))

theorem WellFormed.withSignal (wellFormed : entity.WellFormed)
    (fresh : signal.name ∉ entity.namesOf (entity.inputs ++ entity.outputs)) :
    (entity.withSignal signal).WellFormed := by
  obtain ⟨inputs, outputs, body⟩ := entity.lists_withSignal signal
  refine ⟨?_, ?_, ?_, ?_, ?_, ?_⟩
  · intro id member
    rw [inputs] at member
    split at member
    · next role =>
      rcases List.mem_append.mp member with old | new
      · exact (wellFormed.inputs id old).withSignal signal
      · rw [List.mem_singleton.mp new, ← role]
        exact entity.hasRole_nextSlot signal
    · exact (wellFormed.inputs id member).withSignal signal
  · intro id member
    rw [outputs] at member
    split at member
    · next role =>
      rcases List.mem_append.mp member with old | new
      · exact (wellFormed.outputs id old).withSignal signal
      · rw [List.mem_singleton.mp new, ← role]
        exact entity.hasRole_nextSlot signal
    · exact (wellFormed.outputs id member).withSignal signal
  · exact (wellFormed.boundary signal).nodup_iff.mpr (List.nodup_cons.mpr ⟨fresh, wellFormed.names⟩)
  · intro drive member
    rw [body] at member
    have output := wellFormed.targets drive member
    rw [outputs]
    split
    · exact List.mem_append_left _ output
    · exact output
  · rw [body]
    exact wellFormed.single
  · intro drive member other found
    rw [body] at member
    obtain ⟨old, found', _⟩ := wellFormed.outputs _ (wellFormed.targets drive member)
    rw [signal?_withSignal found' signal] at found
    cases found
    exact wellFormed.widths drive member _ found'

theorem WellFormed.addDrive (wellFormed : entity.WellFormed)
    (output : drive.target ∈ entity.outputs) (free : drive.target ∉ entity.body.map (·.target))
    (width : ∀ signal, entity.signal? drive.target = some signal →
      drive.value.width = signal.type.width.toNat) : (entity.addDrive drive).WellFormed := by
  refine ⟨wellFormed.inputs, wellFormed.outputs, wellFormed.names, ?_, ?_, ?_⟩
  · intro other member
    rcases List.mem_append.mp member with old | new
    · exact wellFormed.targets other old
    · rw [List.mem_singleton.mp new]
      exact output
  · change ((entity.body ++ [drive]).map (·.target)).Nodup
    rw [List.map_append]
    exact List.nodup_append_comm.mp (List.nodup_cons.mpr ⟨free, wellFormed.single⟩)
  · intro other member signal found
    rcases List.mem_append.mp member with old | new
    · exact wellFormed.widths other old signal found
    · rw [List.mem_singleton.mp new] at found ⊢
      exact width signal found

theorem wellFormed_empty (name : Name) (digest : Digest) (span : Span) :
    (empty name digest span).WellFormed := by
  refine ⟨?_, ?_, List.nodup_nil, ?_, List.nodup_nil, ?_⟩
  · intro id member
    cases member
  · intro id member
    cases member
  · intro drive member
    cases member
  · intro drive member
    cases member

end HdlPorts.Entity
