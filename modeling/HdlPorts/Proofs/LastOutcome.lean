import HdlPorts.Proofs.Arenas
import HdlPorts.Proofs.Histories
import Mathlib.Data.List.Dedup
import Mathlib.Data.List.Nodup
import Mathlib.Data.List.Perm.Basic

/-! A session as a map from names to last outcomes.

The arena, the list of current entities and the identifiers that callers hold tell one story: a name
has a current entity exactly when its last elaboration succeeded, that entity is the one the
elaboration returned, and no identifier ever stands for anything else than at first.
-/

set_option autoImplicit false

namespace HdlPorts

theorem Elaboration.succeeded_iff {elaboration : Elaboration} :
    elaboration.succeeded = true ↔ ∃ id, elaboration.outcome = .ok id := by
  unfold succeeded
  cases elaboration.outcome with
  | ok id => exact iff_of_true rfl ⟨id, rfl⟩
  | error rejection => exact iff_of_false Bool.false_ne_true (by rintro ⟨_, ⟨⟩⟩)

namespace History

/-- The last elaboration of the name succeeded. -/
def live (past : History) (name : Name) : Bool := (past.last? name).any (·.succeeded)

/-- The names whose last elaboration succeeded, each once. -/
def liveNames (past : History) : List Name := (past.modules.map (·.name)).dedup.filter past.live

theorem last?_add (past : History) (elaboration : Elaboration) (name : Name) :
    (past.add elaboration).last? name =
      if elaboration.subject.name = name then some elaboration else past.last? name := by
  unfold last? add
  rw [List.reverse_append, List.reverse_singleton, List.singleton_append, List.find?_cons]
  by_cases same : elaboration.subject.name = name
  · rw [if_pos same, beq_iff_eq.mpr same]
  · rw [if_neg same, beq_false_of_ne same]

theorem last?_some {past : History} {name : Name} {last : Elaboration}
    (found : past.last? name = some last) :
    last ∈ past.elaborations ∧ last.subject.name = name := by
  have same := List.find?_some found
  exact ⟨List.mem_reverse.mp (List.mem_of_find?_eq_some found), eq_of_beq same⟩

theorem live_iff {past : History} {name : Name} :
    past.live name = true ↔
      ∃ last id, past.last? name = some last ∧ last.outcome = .ok id := by
  rw [live, Option.any_eq_true]
  simp only [Elaboration.succeeded_iff]
  constructor
  · rintro ⟨last, found, id, outcome⟩
    exact ⟨last, id, found, outcome⟩
  · rintro ⟨last, id, found, outcome⟩
    exact ⟨last, found, id, outcome⟩

theorem mem_liveNames {past : History} {name : Name} :
    name ∈ past.liveNames ↔ past.live name = true := by
  unfold liveNames modules
  rw [List.mem_filter, List.mem_dedup, and_iff_right_iff_imp]
  intro live
  obtain ⟨last, _, found, _⟩ := live_iff.mp live
  obtain ⟨member, named⟩ := last?_some found
  exact List.mem_map.mpr ⟨last.subject, List.mem_map_of_mem member, named⟩

end History

namespace Session

variable {session : Session} {past : History}

/-- The identifier of an elaboration that succeeded. -/
def idOf (elaboration : Elaboration) : Option EntityId := elaboration.outcome.toOption

/-- The session and its history agree. -/
structure Remembers (past : History) (session : Session) : Prop where
  keys : (session.current.map (·.1)).Nodup
  resolves : session.Resolves
  latest : ∀ name, session.currentOf? name = (past.last? name).bind idOf
  issued : ∀ elaboration ∈ past.elaborations, ∀ id, elaboration.outcome = .ok id →
    ∃ entity, elaboration.entity? = some entity ∧ session.get? id = some entity
  refused : ∀ elaboration ∈ past.elaborations, ∀ rejection,
    elaboration.outcome = .error rejection → elaboration.entity? = none

theorem keys_dropCurrent (keys : (session.current.map (·.1)).Nodup) (name : Name) :
    ((session.dropCurrent name).current.map (·.1)).Nodup :=
  keys.sublist (List.filter_sublist.map _)

theorem keys_store (keys : (session.current.map (·.1)).Nodup) (name : Name) (entity : Entity) :
    ((session.store name entity).current.map (·.1)).Nodup := by
  refine List.nodup_cons.mpr ⟨?_, session.keys_dropCurrent keys name⟩
  -- All entries of the name were dropped before the new one was put in front.
  intro member
  obtain ⟨entry, kept, same⟩ := List.mem_map.mp member
  have different := (List.mem_filter.mp kept).2
  rw [same] at different
  simp at different

theorem Remembers.step {after : Session} {m : Module} {outcome : Outcome}
    (remembers : session.Remembers past) (step : session.Step m outcome after) :
    after.Remembers (past.add (.record after m outcome)) := by
  refine ⟨?_, step.resolves remembers.resolves, ?_, ?_, ?_⟩
  · cases step with
    | again _ => exact remembers.keys
    | @stored entity names =>
      have keys : (({ session with names } : Session).current.map (·.1)).Nodup := remembers.keys
      exact keys_store keys m.name entity
    | rejected => exact keys_dropCurrent remembers.keys m.name
  · intro name
    rw [History.last?_add]
    cases step with
    | again hit =>
      by_cases same : m.name = name
      · rw [← same, (cached?_eq_some.mp hit).1]
        simp [Elaboration.record, idOf, Except.toOption]
      · rw [if_neg (by exact same)]
        exact remembers.latest name
    | stored =>
      rw [currentOf?_store]
      by_cases same : name = m.name
      · simp [Elaboration.record, idOf, Except.toOption, same]
      · rw [if_neg same, if_neg (by exact fun back => same back.symm)]
        exact remembers.latest name
    | rejected =>
      rw [currentOf?_reject]
      by_cases same : name = m.name
      · simp [Elaboration.record, idOf, Except.toOption, same]
      · rw [if_neg same, if_neg (by exact fun back => same back.symm)]
        exact remembers.latest name
  · intro elaboration member id issued
    rcases List.mem_append.mp member with old | new
    · obtain ⟨entity, stood, found⟩ := remembers.issued elaboration old id issued
      exact ⟨entity, stood, step.get? found⟩
    · rw [List.mem_singleton] at new
      subst new
      have issued : outcome = .ok id := issued
      subst issued
      obtain ⟨entity, found⟩ := step.issued
      exact ⟨entity, found, found⟩
  · intro elaboration member rejection refused
    rcases List.mem_append.mp member with old | new
    · exact remembers.refused elaboration old rejection refused
    · rw [List.mem_singleton] at new
      subst new
      have refused : outcome = .error rejection := refused
      subst refused
      rfl

end Session

/-! ## Current entities as a list -/

namespace Session

variable {session : Session} {past : History}

/-- The merge keeps the entries whose slots are listed. -/
theorem collect_eq {ids : List EntityId} {entries : List (EntityId × Entity)}
    (sorted : ids.Pairwise fun first second => first.index < second.index)
    (ordered : entries.Pairwise fun first second => first.1.index < second.1.index)
    (stored : ∀ id ∈ ids, id ∈ entries.map (·.1)) :
    collect ids entries = (entries.filter (·.1 ∈ ids)).map (·.2) := by
  induction entries generalizing ids with
  | nil =>
    cases ids with
    | nil => rfl
    | cons id rest => cases stored id List.mem_cons_self
  | cons entry entries ih =>
    obtain ⟨slot, entity⟩ := entry
    obtain ⟨first, later⟩ := List.pairwise_cons.mp ordered
    have above : ∀ other ∈ entries.map (·.1), slot.index < other.index := by
      intro other member
      obtain ⟨entry, stored, rfl⟩ := List.mem_map.mp member
      exact first entry stored
    cases ids with
    | nil => simp [collect]
    | cons id ids =>
      obtain ⟨least, sorted'⟩ := List.pairwise_cons.mp sorted
      by_cases same : id = slot
      · subst same
        -- The slots that follow are above `id`, so it no longer matters whether it is listed.
        have others : entries.filter (·.1 ∈ id :: ids) = entries.filter (·.1 ∈ ids) := by
          apply List.filter_congr
          intro entry member
          have different : entry.1 ≠ id := fun same =>
            absurd (above entry.1 (List.mem_map_of_mem member)) (by rw [same]; exact Nat.lt_irrefl _)
          simp [different]
        have stored' : ∀ other ∈ ids, other ∈ entries.map (·.1) := by
          intro other member
          rcases List.mem_cons.mp (stored other (List.mem_cons_of_mem _ member)) with here | there
          · exact absurd (least other member) (by rw [here]; exact Nat.lt_irrefl _)
          · exact there
        rw [collect, if_pos rfl, List.filter_cons_of_pos (by simp), List.map_cons, others,
          ih sorted' later stored']
      · -- The least identifier is above the slot, and all the others are above the least one.
        have below : ∀ other ∈ id :: ids, slot.index < other.index := by
          have head : slot.index < id.index := by
            rcases List.mem_cons.mp (stored id List.mem_cons_self) with here | there
            · exact absurd here same
            · exact above id there
          intro other member
          rcases List.mem_cons.mp member with rfl | tail
          · exact head
          · exact Nat.lt_trans head (least other tail)
        have stored' : ∀ other ∈ id :: ids, other ∈ entries.map (·.1) := by
          intro other member
          rcases List.mem_cons.mp (stored other member) with here | there
          · exact absurd (below other member) (by rw [here]; exact Nat.lt_irrefl _)
          · exact there
        have unlisted : slot ∉ id :: ids := fun member => Nat.lt_irrefl _ (below slot member)
        rw [collect, if_neg same, List.filter_cons_of_neg (by simpa using unlisted),
          ih sorted later stored']

theorem mem_current_iff (keys : (session.current.map (·.1)).Nodup) {name : Name} {id : EntityId} :
    (name, id) ∈ session.current ↔ session.currentOf? name = some id := by
  unfold currentOf?
  generalize session.current = current at keys
  induction current with
  | nil => simp
  | cons entry rest ih =>
    obtain ⟨own, slot⟩ := entry
    obtain ⟨fresh, keys⟩ := List.nodup_cons.mp keys
    by_cases same : own = name
    · subst same
      -- The first entry of a name is the only one.
      have absent : (own, id) ∉ rest := fun member => fresh (List.mem_map.mpr ⟨_, member, rfl⟩)
      simp [absent, eq_comm]
    · rw [List.mem_cons, ih keys, List.find?_cons_of_neg (by simp [same])]
      simp [Ne.symm same]

theorem entity?_eq_some {name : Name} {entity : Entity} :
    session.entity? name = some entity ↔
      ∃ id, session.currentOf? name = some id ∧ session.get? id = some entity :=
  Option.bind_eq_some_iff

theorem slots_nodup (keys : (session.current.map (·.1)).Nodup) (resolves : session.Resolves) :
    (session.current.map (·.2)).Nodup := by
  refine List.Nodup.map_on ?_ (List.Nodup.of_map _ keys)
  rintro ⟨name, id⟩ member ⟨other, _⟩ member' rfl
  -- The entity in the slot has one name, and it is the name of both entries.
  obtain ⟨entity, found, named⟩ := resolves name id ((mem_current_iff keys).mp member)
  obtain ⟨entity', found', named'⟩ := resolves other id ((mem_current_iff keys).mp member')
  cases found.symm.trans found'
  rw [← named, ← named']

theorem currentEntities_eq (keys : (session.current.map (·.1)).Nodup)
    (resolves : session.Resolves) :
    session.currentEntities =
      (session.entities.entries.filter (·.1 ∈ session.current.map (·.2))).map (·.2) := by
  let before (first second : EntityId) : Bool := first.index ≤ second.index
  have perm := List.mergeSort_perm (session.current.map (·.2)) before
  have sorted : ((session.current.map (·.2)).mergeSort before).Pairwise (before · ·) :=
    List.pairwise_mergeSort (by simpa [before] using fun a b c => Nat.le_trans)
      (by simpa [before] using fun a b => Nat.le_total _ _) _
  have nodup := perm.nodup_iff.mpr (slots_nodup keys resolves)
  unfold currentEntities
  rw [collect_eq ?_ session.entities.entries_ordered ?_]
  · simp only [perm.mem_iff, before]
  · -- Slots are pairwise different, so the sorted list ascends strictly.
    refine (sorted.and nodup).imp ?_
    rintro ⟨first⟩ ⟨second⟩ ⟨least, different⟩
    simp only [before, decide_eq_true_eq, ne_eq, Slot.mk.injEq] at least different ⊢
    omega
  · intro id member
    obtain ⟨⟨name, _⟩, listed, rfl⟩ := List.mem_map.mp (perm.mem_iff.mp member)
    obtain ⟨entity, found, _⟩ := resolves name _ ((mem_current_iff keys).mp listed)
    exact List.mem_map.mpr ⟨_, Arena.mem_entries.mpr found, rfl⟩

theorem mem_currentEntities (keys : (session.current.map (·.1)).Nodup)
    (resolves : session.Resolves) {entity : Entity} :
    entity ∈ session.currentEntities ↔ ∃ name, session.entity? name = some entity := by
  rw [currentEntities_eq keys resolves]
  simp only [List.mem_map, List.mem_filter, Prod.exists, decide_eq_true_eq, entity?_eq_some,
    exists_eq_right, Arena.mem_entries, mem_current_iff keys]
  constructor
  · rintro ⟨id, found, name, here⟩
    exact ⟨name, id, here, found⟩
  · rintro ⟨name, id, here, found⟩
    exact ⟨id, found, name, here⟩

theorem currentEntities_nodup (keys : (session.current.map (·.1)).Nodup)
    (resolves : session.Resolves) : session.currentEntities.Nodup := by
  rw [currentEntities_eq keys resolves]
  refine List.Nodup.map_on ?_ (List.Nodup.filter _ ?_)
  · -- Equal entities have equal names, so they are the current entity of one name.
    rintro ⟨id, entity⟩ member ⟨id', _⟩ member' rfl
    obtain ⟨stored, listed⟩ := List.mem_filter.mp member
    obtain ⟨stored', listed'⟩ := List.mem_filter.mp member'
    obtain ⟨⟨name, _⟩, here, rfl⟩ := List.mem_map.mp (of_decide_eq_true listed)
    obtain ⟨⟨name', _⟩, here', rfl⟩ := List.mem_map.mp (of_decide_eq_true listed')
    have here := (mem_current_iff keys).mp here
    have here' := (mem_current_iff keys).mp here'
    obtain ⟨_, found, named⟩ := resolves name _ here
    obtain ⟨_, found', named'⟩ := resolves name' _ here'
    cases (Arena.mem_entries.mp stored).symm.trans found
    cases (Arena.mem_entries.mp stored').symm.trans found'
    rw [named.symm.trans named', here'] at here
    rw [Option.some.inj here]
  · exact session.entities.entries_ordered.imp fun below same =>
      absurd below (by rw [same]; exact Nat.lt_irrefl _)

/-- The current entity of a name is that of its last elaboration. -/
theorem Remembers.entity? (remembers : session.Remembers past) (name : Name) :
    session.entity? name = (past.last? name).bind (·.entity?) := by
  have latest := remembers.latest name
  unfold Session.entity?
  rw [latest]
  cases found : past.last? name with
  | none => rfl
  | some last =>
    have member := (History.last?_some found).1
    cases outcome : last.outcome with
    | ok id =>
      obtain ⟨entity, stood, stored⟩ := remembers.issued last member id outcome
      have stored : session.entities.get? id = some entity := stored
      simp [idOf, outcome, Except.toOption, stored, stood]
    | error rejection =>
      simp [idOf, outcome, Except.toOption, remembers.refused last member rejection outcome]

theorem Remembers.isSome_entity? (remembers : session.Remembers past) (name : Name) :
    (session.entity? name).isSome = past.live name := by
  rw [remembers.entity? name, History.live]
  cases found : past.last? name with
  | none => rfl
  | some last =>
    have member := (History.last?_some found).1
    cases outcome : last.outcome with
    | ok id =>
      obtain ⟨entity, stood, _⟩ := remembers.issued last member id outcome
      simp [Elaboration.succeeded, outcome, stood, Except.isOk, Except.toBool]
    | error rejection =>
      simp [Elaboration.succeeded, outcome, Except.isOk, Except.toBool,
        remembers.refused last member rejection outcome]

/-- The names with a current entity are those whose last elaboration succeeded. -/
theorem Remembers.perm_liveNames (remembers : session.Remembers past) :
    (session.current.map (·.1)).Perm past.liveNames := by
  have nodup : past.liveNames.Nodup := (List.nodup_dedup _).filter _
  refine (List.perm_ext_iff_of_nodup remembers.keys nodup).mpr ?_
  intro name
  rw [History.mem_liveNames, ← remembers.isSome_entity?, Option.isSome_iff_exists, List.mem_map]
  constructor
  · rintro ⟨⟨_, id⟩, member, rfl⟩
    have here := (mem_current_iff remembers.keys).mp member
    obtain ⟨entity, found, _⟩ := remembers.resolves _ id here
    exact ⟨entity, entity?_eq_some.mpr ⟨id, here, found⟩⟩
  · rintro ⟨entity, found⟩
    obtain ⟨id, here, _⟩ := entity?_eq_some.mp found
    exact ⟨(name, id), (mem_current_iff remembers.keys).mpr here, rfl⟩

end Session

/-! ## Runs -/

section Runs

variable {settings : Settings} {names : Names} {past : History} {session : Session}

theorem Run.remembers (run : Run settings names past session) : session.Remembers past := by
  apply run.preserve
  · exact ⟨List.nodup_nil, fun _ _ here => (by cases here), fun _ => rfl,
      fun _ member => (by cases member), fun _ member => (by cases member)⟩
  · intro past session names remembers _
    exact ⟨remembers.keys, remembers.resolves, remembers.latest, remembers.issued,
      remembers.refused⟩
  · intro past session remembers
    exact ⟨remembers.keys, remembers.resolves, remembers.latest, remembers.issued,
      remembers.refused⟩
  · intro past session m outcome after remembers step
    exact remembers.step step

/-- A name has a current entity exactly when its last elaboration succeeded, and then it is the
entity which that elaboration returned. -/
theorem Run.current_iff_last_succeeded (run : Run settings names past session) :
    (∀ name entity, session.entity? name = some entity ↔
        ∃ last id, past.last? name = some last ∧ last.outcome = .ok id ∧
          last.entity? = some entity) ∧
      (∀ name, (session.entity? name).isSome = past.live name) ∧
      session.size = past.liveNames.length ∧
      (session.isEmpty = true ↔ ∀ name, past.live name = false) ∧
      session.currentEntities.Nodup ∧
      (∀ entity, entity ∈ session.currentEntities ↔ ∃ name, session.entity? name = some entity) ∧
      ∀ elaboration ∈ past.elaborations, ∀ id, elaboration.outcome = .ok id →
        ∃ entity, elaboration.entity? = some entity ∧ session.get? id = some entity := by
  have remembers := run.remembers
  have size : session.size = past.liveNames.length := by
    rw [← remembers.perm_liveNames.length_eq, List.length_map, Session.size]
  refine ⟨?_, remembers.isSome_entity?, size, ?_,
    Session.currentEntities_nodup remembers.keys remembers.resolves,
    fun _ => Session.mem_currentEntities remembers.keys remembers.resolves, remembers.issued⟩
  · intro name entity
    rw [remembers.entity?, Option.bind_eq_some_iff]
    constructor
    · rintro ⟨last, found, stood⟩
      cases outcome : last.outcome with
      | ok id => exact ⟨last, id, found, outcome, stood⟩
      | error rejection =>
        have member := (History.last?_some found).1
        rw [remembers.refused last member rejection outcome] at stood
        cases stood
    · rintro ⟨last, _, found, _, stood⟩
      exact ⟨last, found, stood⟩
  · rw [Session.isEmpty, List.isEmpty_iff_length_eq_zero, ← Session.size, size,
      List.length_eq_zero_iff, List.eq_nil_iff_forall_not_mem]
    simp only [History.mem_liveNames, Bool.not_eq_true]

/-- After the sample batch two names have a current entity, and the entity that was built first is
still found. -/
theorem Run.current_iff_last_succeeded_sample :
    ∃ past session, Run {} Sample.table past session ∧ (session.entity? ⟨0⟩).isSome = true ∧
      session.size = 2 ∧ session.currentEntities.Nodup ∧
      ∃ entity, session.get? ⟨0⟩ = some entity := by
  obtain ⟨drained, session, run⟩ := Sample.run
  obtain ⟨_, live, size, _, nodup, _, issued⟩ := run.current_iff_last_succeeded
  refine ⟨_, session, run, (live ⟨0⟩).trans rfl, size.trans rfl, nodup, ?_⟩
  obtain ⟨entity, _, found⟩ := issued _ List.mem_cons_self ⟨0⟩ rfl
  exact ⟨entity, found⟩

end Runs

end HdlPorts
