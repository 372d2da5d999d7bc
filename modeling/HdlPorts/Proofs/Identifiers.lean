import HdlPorts.Proofs.LastOutcome

/-! Which identifier an elaboration hands out.

Whether an elaboration hands out an identifier again can be read off the history: it does exactly if
the last elaboration of the name has handed one out for a declaration with the same digest. Every
other elaboration that succeeds takes the next identifier, so the identifiers of a history count
up. Both are properties of one elaboration after those before it. From them follows what two
elaborations of one name have in common, however far they are apart and whatever batches they are in.
-/

set_option autoImplicit false

namespace HdlPorts

theorem Session.idOf_eq_some {elaboration : Elaboration} {id : EntityId} :
    Session.idOf elaboration = some id ↔ elaboration.outcome = .ok id := by
  unfold Session.idOf
  cases elaboration.outcome with
  | ok other => simp [Except.toOption]
  | error rejection => simp [Except.toOption]

namespace History

variable {past : History} {elaboration : Elaboration} {m : Module} {id : EntityId}

/-- What happened before the elaboration at a position. -/
def upTo (past : History) (position : Nat) : History :=
  { past with elaborations := past.elaborations.take position }

/-- The identifiers that were handed out, each as often as it was. -/
def issued (past : History) : List EntityId := past.elaborations.filterMap Session.idOf

/-- The number of different identifiers that were handed out. -/
def stored (past : History) : Nat := past.issued.dedup.length

/-- The last elaboration of the name of the module has handed out the identifier, for a declaration
with the digest of the module. -/
def Repeats (past : History) (m : Module) (id : EntityId) : Prop :=
  ∃ last, past.last? m.name = some last ∧ last.outcome = .ok id ∧ last.subject.digest = m.digest

/-- From position `i` up to position `j` every elaboration of the name had the same digest. -/
def Unchanged (past : History) (i j : Nat) (m : Module) : Prop :=
  ∀ k between, i ≤ k → k ≤ j → past.elaborations[k]? = some between →
    between.subject.name = m.name → between.subject.digest = m.digest

/-- The rule for the elaboration that comes next. -/
structure Numbered (past : History) (elaboration : Elaboration) : Prop where
  again : ∀ id, past.Repeats elaboration.subject id → elaboration.outcome = .ok id
  fresh : (∀ id, ¬ past.Repeats elaboration.subject id) →
    ∀ id, elaboration.outcome = .ok id → id.index = past.stored

/-- All elaborations of the history keep the rule. -/
def Lawful (past : History) : Prop :=
  ∀ j elaboration, past.elaborations[j]? = some elaboration → (past.upTo j).Numbered elaboration

/-- The identifiers that were handed out are the first ones. -/
def CountsUp (past : History) : Prop := ∀ id, id ∈ past.issued ↔ id.index < past.stored

/-! ## One more elaboration -/

theorem upTo_length (past : History) : past.upTo past.elaborations.length = past := by
  rw [upTo, List.take_length]

theorem upTo_add {j : Nat} (within : j ≤ past.elaborations.length) (elaboration : Elaboration) :
    (past.add elaboration).upTo j = past.upTo j := by
  rw [upTo, add, upTo, List.take_append_of_le_length within]

theorem upTo_succ {j : Nat} (found : past.elaborations[j]? = some elaboration) :
    past.upTo (j + 1) = (past.upTo j).add elaboration := by
  rw [upTo, upTo, add, List.take_add_one, found]
  rfl

theorem mem_issued : id ∈ past.issued ↔
    ∃ elaboration ∈ past.elaborations, elaboration.outcome = .ok id := by
  simp only [issued, List.mem_filterMap, Session.idOf_eq_some]

theorem Repeats.issued (repeats : past.Repeats m id) : id ∈ past.issued := by
  obtain ⟨last, found, outcome, _⟩ := repeats
  exact mem_issued.mpr ⟨last, (last?_some found).1, outcome⟩

theorem issued_add_error {rejection : Rejection} (outcome : elaboration.outcome = .error rejection) :
    (past.add elaboration).issued = past.issued := by
  simp [History.issued, add, Session.idOf, outcome, Except.toOption]

theorem issued_add_ok (outcome : elaboration.outcome = .ok id) :
    (past.add elaboration).issued = past.issued ++ [id] := by
  simp [History.issued, add, Session.idOf, outcome, Except.toOption]

theorem stored_add_error {rejection : Rejection} (outcome : elaboration.outcome = .error rejection) :
    (past.add elaboration).stored = past.stored := by
  rw [stored, issued_add_error outcome, stored]

theorem stored_add_ok (outcome : elaboration.outcome = .ok id) :
    (past.add elaboration).stored = if id ∈ past.issued then past.stored else past.stored + 1 := by
  have perm : (past.issued ++ [id]).Perm (id :: past.issued) := List.perm_append_comm
  rw [stored, issued_add_ok outcome, perm.dedup.length_eq]
  split
  · next member => rw [List.dedup_cons_of_mem member, stored]
  · next fresh => rw [List.dedup_cons_of_notMem fresh, List.length_cons, stored]

theorem Numbered.repeats_of_issued (numbered : past.Numbered elaboration) (counts : past.CountsUp)
    (outcome : elaboration.outcome = .ok id) (old : id ∈ past.issued) :
    past.Repeats elaboration.subject id := by
  by_cases repeats : ∃ id', past.Repeats elaboration.subject id'
  · obtain ⟨id', repeats⟩ := repeats
    cases outcome.symm.trans (numbered.again id' repeats)
    exact repeats
  · -- A new identifier would be above those that were handed out.
    have new := numbered.fresh (not_exists.mp repeats) id outcome
    exact absurd ((counts id).mp old) (by omega)

/-- While a declaration is the current one, an elaboration of its name hands its identifier out
exactly if it has its digest. -/
theorem Numbered.ok_iff_same_digest (numbered : past.Numbered elaboration) (counts : past.CountsUp)
    (kept : past.Repeats m id) (name : elaboration.subject.name = m.name) :
    elaboration.outcome = .ok id ↔ elaboration.subject.digest = m.digest := by
  obtain ⟨last, found, issued, digest⟩ := kept
  constructor
  · intro outcome
    obtain ⟨last', found', _, digest'⟩ :=
      numbered.repeats_of_issued counts outcome (mem_issued.mpr ⟨last, (last?_some found).1, issued⟩)
    rw [name, found] at found'
    cases found'
    exact digest'.symm.trans digest
  · intro same
    exact numbered.again id ⟨last, name ▸ found, issued, digest.trans same.symm⟩

/-- An identifier that the last elaboration of a name did not hand out is not handed out again. -/
theorem Numbered.ne_of_lost {name : Name} (numbered : past.Numbered elaboration)
    (counts : past.CountsUp) (old : id ∈ past.issued)
    (lost : ∀ last, past.last? name = some last → last.outcome ≠ .ok id)
    (same : elaboration.subject.name = name) : elaboration.outcome ≠ .ok id := by
  intro outcome
  obtain ⟨last, found, issued, _⟩ := numbered.repeats_of_issued counts outcome old
  exact lost last (same ▸ found) issued

theorem CountsUp.add (counts : past.CountsUp) (numbered : past.Numbered elaboration) :
    (past.add elaboration).CountsUp := by
  intro slot
  cases outcome : elaboration.outcome with
  | error rejection =>
    rw [issued_add_error outcome, stored_add_error outcome]
    exact counts slot
  | ok id =>
    rw [issued_add_ok outcome, stored_add_ok outcome, List.mem_append, List.mem_singleton, counts]
    split
    · next old =>
      have below := (counts id).mp old
      refine ⟨?_, .inl⟩
      rintro (member | rfl)
      · exact member
      · exact below
    · next fresh =>
      have new := numbered.fresh (fun id' repeats => fresh ?_) id outcome
      · rw [show slot = id ↔ slot.index = id.index by cases slot; cases id; simp, new]
        omega
      · cases outcome.symm.trans (numbered.again id' repeats)
        exact repeats.issued

/-! ## The law of a history -/

theorem lawful_nil (drained : List Diagnostic) : Lawful ⟨[], drained⟩ := by
  intro j elaboration found
  cases found

theorem Lawful.add (lawful : past.Lawful) (numbered : past.Numbered elaboration) :
    (past.add elaboration).Lawful := by
  intro j other found
  rcases Nat.lt_or_ge j past.elaborations.length with before | last
  · rw [upTo_add (Nat.le_of_lt before)]
    refine lawful j other ?_
    rwa [History.add, List.getElem?_append_left before] at found
  · have bound := (List.getElem?_eq_some_iff.mp found).1
    have here : j = past.elaborations.length := by
      simp only [History.add, List.length_append, List.length_singleton] at bound
      omega
    subst here
    rw [upTo_add (Nat.le_refl _), upTo_length]
    rw [History.add, List.getElem?_concat_length] at found
    cases found
    exact numbered

theorem Lawful.countsUp (lawful : past.Lawful) (j : Nat) : (past.upTo j).CountsUp := by
  induction j with
  | zero => exact fun id => by simp [upTo, issued, stored]
  | succ j ih =>
    cases found : past.elaborations[j]? with
    | some elaboration =>
      rw [upTo_succ found]
      exact ih.add (lawful j elaboration found)
    | none =>
      have beyond : past.elaborations.length ≤ j := List.getElem?_eq_none_iff.mp found
      rw [upTo, List.take_of_length_le beyond] at ih
      rwa [upTo, List.take_of_length_le (Nat.le_succ_of_le beyond)]

theorem Unchanged.succ {i j : Nat} (unchanged : past.Unchanged i j m)
    (found : past.elaborations[j + 1]? = some elaboration)
    (same : elaboration.subject.name = m.name → elaboration.subject.digest = m.digest) :
    past.Unchanged i (j + 1) m := by
  intro k between from_ upto here name
  rcases Nat.lt_or_ge j k with last | before
  · rw [show k = j + 1 by omega, found] at here
    cases here
    exact same name
  · exact unchanged k between from_ before here name

theorem Unchanged.pred {i j : Nat} (unchanged : past.Unchanged i (j + 1) m) :
    past.Unchanged i j m :=
  fun k between from_ upto => unchanged k between from_ (Nat.le_succ_of_le upto)

/-- After an elaboration that succeeded, its declaration stays the current one as long as nothing
changes. Once something has changed, its identifier does not come back. -/
theorem Lawful.kept_or_lost (lawful : past.Lawful) {i j : Nat} {first : Elaboration}
    (found : past.elaborations[i]? = some first) (outcome : first.outcome = .ok id) (after : i ≤ j)
    (within : j < past.elaborations.length) :
    (past.Unchanged i j first.subject ∧ (past.upTo (j + 1)).Repeats first.subject id) ∨
      (¬ past.Unchanged i j first.subject ∧
        ∀ last, (past.upTo (j + 1)).last? first.subject.name = some last →
          last.outcome ≠ .ok id) := by
  induction after with
  | refl =>
    refine .inl ⟨?_, first, ?_, outcome, rfl⟩
    · intro k between from_ upto here _
      rw [Nat.le_antisymm upto from_, found] at here
      cases here
      rfl
    · rw [upTo_succ found, last?_add, if_pos rfl]
  | @step j after ih =>
    have ih := ih (Nat.lt_of_succ_lt within)
    have next : past.elaborations[j + 1]? = some past.elaborations[j + 1] :=
      List.getElem?_eq_getElem within
    generalize past.elaborations[j + 1] = elaboration at next
    have numbered := lawful (j + 1) elaboration next
    have counts := lawful.countsUp (j + 1)
    have old : id ∈ (past.upTo (j + 1)).issued := by
      refine mem_issued.mpr ⟨first, List.mem_of_getElem? (i := i) ?_, outcome⟩
      rw [upTo, List.getElem?_take_of_lt (Nat.lt_succ_of_le after)]
      exact found
    rw [upTo_succ next, Repeats, last?_add]
    by_cases name : elaboration.subject.name = first.subject.name
    · rw [if_pos name]
      rcases ih with ⟨unchanged, kept⟩ | ⟨changed, lost⟩
      · have again := numbered.ok_iff_same_digest counts kept name
        by_cases digest : elaboration.subject.digest = first.subject.digest
        · exact .inl ⟨unchanged.succ next fun _ => digest, elaboration, rfl, again.mpr digest, digest⟩
        · refine .inr ⟨fun unchanged => digest ?_, ?_⟩
          · exact unchanged (j + 1) elaboration (Nat.le_succ_of_le after) (Nat.le_refl _) next name
          · rintro last ⟨⟩ outcome
            exact digest (again.mp outcome)
      · refine .inr ⟨fun unchanged => changed unchanged.pred, ?_⟩
        rintro last ⟨⟩
        exact numbered.ne_of_lost counts old lost name
    · rw [if_neg name]
      rcases ih with ⟨unchanged, kept⟩ | ⟨changed, lost⟩
      · exact .inl ⟨unchanged.succ next fun same => absurd same name, kept⟩
      · exact .inr ⟨fun unchanged => changed unchanged.pred, lost⟩

/-- While the declaration of a name does not change its elaborations hand out one identifier, so none
of them fails. -/
theorem Lawful.outcome_of_unchanged (lawful : past.Lawful) {i k : Nat} {first between : Elaboration}
    (found : past.elaborations[i]? = some first) (outcome : first.outcome = .ok id) (after : i ≤ k)
    (unchanged : past.Unchanged i k first.subject)
    (here : past.elaborations[k]? = some between)
    (name : between.subject.name = first.subject.name) : between.outcome = .ok id := by
  have within := (List.getElem?_eq_some_iff.mp here).1
  rcases lawful.kept_or_lost found outcome after within with ⟨_, last, latest, issued, _⟩ | lost
  · rw [upTo_succ here, last?_add, if_pos name] at latest
    cases latest
    exact issued
  · exact absurd unchanged lost.1

end History

namespace Session

variable {session : Session} {past : History}

/-- The session and its history agree on what is stored. -/
structure Numbers (past : History) (session : Session) : Prop where
  remembers : session.Remembers past
  digests : ∀ name last id entity, past.last? name = some last → last.outcome = .ok id →
    session.get? id = some entity → entity.digest = last.subject.digest
  size : session.entities.size = past.stored
  lawful : past.Lawful

/-- What the cache finds is what the history repeats. -/
theorem Numbers.cached?_iff_repeats (numbers : session.Numbers past) {m : Module} {id : EntityId} :
    session.cached? m.name m.digest = some id ↔ past.Repeats m id := by
  have latest := numbers.remembers.latest m.name
  rw [cached?_eq_some, latest, Option.bind_eq_some_iff]
  constructor
  · rintro ⟨⟨last, found, issued⟩, entity, stored, digest⟩
    have outcome := idOf_eq_some.mp issued
    exact ⟨last, found, outcome,
      (numbers.digests _ _ _ _ found outcome stored).symm.trans digest⟩
  · rintro ⟨last, found, outcome, digest⟩
    obtain ⟨entity, _, stored⟩ :=
      numbers.remembers.issued last (History.last?_some found).1 id outcome
    exact ⟨⟨last, found, idOf_eq_some.mpr outcome⟩, entity, stored,
      (numbers.digests _ _ _ _ found outcome stored).trans digest⟩

theorem Numbers.numbered {after : Session} {m : Module} {outcome : Outcome}
    (numbers : session.Numbers past) (step : session.Step m outcome after) :
    past.Numbered (.record after m outcome) := by
  -- Whether the step finds the module in the cache is what decides.
  cases step with
  | again hit =>
    have repeats := numbers.cached?_iff_repeats.mp hit
    refine ⟨fun id repeats' => ?_, fun fresh => absurd repeats (fresh _)⟩
    obtain ⟨last, found, issued, _⟩ := repeats
    obtain ⟨last', found', issued', _⟩ := repeats'
    cases found.symm.trans found'
    exact issued.symm.trans issued'
  | stored miss =>
    have fresh : ∀ id, ¬ past.Repeats m id := by
      intro id repeats
      rw [numbers.cached?_iff_repeats.mpr repeats] at miss
      cases miss
    refine ⟨fun id repeats => absurd repeats (fresh id), fun _ id issued => ?_⟩
    cases issued
    exact numbers.size
  | rejected miss =>
    have fresh : ∀ id, ¬ past.Repeats m id := by
      intro id repeats
      rw [numbers.cached?_iff_repeats.mpr repeats] at miss
      cases miss
    exact ⟨fun id repeats => absurd repeats (fresh id), fun _ id issued => (by cases issued)⟩

theorem Numbers.counts (numbers : session.Numbers past) : past.CountsUp := by
  have counts := numbers.lawful.countsUp past.elaborations.length
  rwa [History.upTo_length] at counts

theorem Numbers.digests_step {after : Session} {m : Module} {outcome : Outcome}
    (numbers : session.Numbers past) (step : session.Step m outcome after) {name : Name}
    {last : Elaboration} {id : EntityId} {entity : Entity}
    (found : (past.add (.record after m outcome)).last? name = some last)
    (issued : last.outcome = .ok id) (stored : after.get? id = some entity) :
    entity.digest = last.subject.digest := by
  rw [History.last?_add] at found
  split at found
  · -- The entity was found in the cache or has just been built.
    cases found
    cases step with
    | again hit =>
      cases issued
      obtain ⟨_, cached, found, digest⟩ := cached?_eq_some.mp hit
      cases found.symm.trans stored
      exact digest
    | stored _ _ settled =>
      cases issued
      cases (get?_store_new _ _ _).symm.trans stored
      exact settled.head.2
    | rejected => cases issued
  · obtain ⟨older, _, here⟩ :=
      numbers.remembers.issued last (History.last?_some found).1 id issued
    cases (step.get? here).symm.trans stored
    exact numbers.digests name last id _ found issued here

theorem Numbers.size_step {after : Session} {m : Module} {outcome : Outcome}
    (numbers : session.Numbers past) (step : session.Step m outcome after) :
    after.entities.size = (past.add (.record after m outcome)).stored := by
  cases step with
  | again hit =>
    have old := (numbers.cached?_iff_repeats.mp hit).issued
    rw [History.stored_add_ok rfl, if_pos old, numbers.size]
  | stored =>
    have fresh : (⟨session.entities.size⟩ : EntityId) ∉ past.issued := by
      rw [numbers.counts, numbers.size]
      exact Nat.lt_irrefl _
    rw [History.stored_add_ok rfl, if_neg fresh, ← numbers.size]
    exact List.length_append
  | rejected =>
    rw [History.stored_add_error rfl, ← numbers.size]
    rfl

theorem Numbers.step {after : Session} {m : Module} {outcome : Outcome}
    (numbers : session.Numbers past) (step : session.Step m outcome after) :
    after.Numbers (past.add (.record after m outcome)) where
  remembers := numbers.remembers.step step
  digests _ _ _ _ := numbers.digests_step step
  size := numbers.size_step step
  lawful := numbers.lawful.add (numbers.numbered step)

end Session

/-! ## Runs -/

section Runs

variable {settings : Settings} {names : Names} {past : History} {session : Session}

theorem Run.numbers (run : Run settings names past session) : session.Numbers past := by
  apply run.preserve
  · exact ⟨Run.start.remembers, fun _ _ _ _ found => (by cases found), rfl, History.lawful_nil []⟩
  · rintro past session names ⟨⟨keys, resolves, latest, issued, refused⟩, digests, size, lawful⟩ _
    exact ⟨⟨keys, resolves, latest, issued, refused⟩, digests, size, lawful⟩
  · rintro past session ⟨⟨keys, resolves, latest, issued, refused⟩, digests, size, lawful⟩
    refine ⟨⟨keys, resolves, latest, issued, refused⟩, digests, size, ?_⟩
    intro j elaboration found
    obtain ⟨again, fresh⟩ := lawful j elaboration found
    exact ⟨again, fresh⟩
  · intro past session m outcome after numbers step
    exact numbers.step step

/-- Two elaborations of a name that succeed hand out one identifier exactly if every elaboration of
the name from the first to the second has had the same digest, so that none of them has failed or
used another declaration. An elaboration that repeats the current declaration of its name hands out
the identifier again; any other that succeeds hands out the next one, as many as have been stored. -/
theorem Run.same_identifier_iff (run : Run settings names past session) :
    (∀ (i j : Nat) (first second : Elaboration) (id id' : EntityId), i < j →
      past.elaborations[i]? = some first → past.elaborations[j]? = some second →
      first.subject.name = second.subject.name → first.outcome = .ok id →
      second.outcome = .ok id' → (id = id' ↔ past.Unchanged i j first.subject) ∧
        (id = id' → ∀ k between, i ≤ k → k ≤ j → past.elaborations[k]? = some between →
          between.subject.name = first.subject.name → between.outcome = .ok id)) ∧
      (∀ (j : Nat) (elaboration : Elaboration), past.elaborations[j]? = some elaboration →
        (∀ id, (past.upTo j).Repeats elaboration.subject id → elaboration.outcome = .ok id) ∧
        ((∀ id, ¬ (past.upTo j).Repeats elaboration.subject id) →
          ∀ id, elaboration.outcome = .ok id → id.index = (past.upTo j).stored) ∧
        ∀ id, id ∈ (past.upTo j).issued ↔ id.index < (past.upTo j).stored) ∧
      session.entities.size = past.stored ∧
      ∀ m id, session.cached? m.name m.digest = some id ↔ past.Repeats m id := by
  have numbers := run.numbers
  refine ⟨?_, ?_, numbers.size, fun m id => numbers.cached?_iff_repeats⟩
  · intro i j first second id id' before found found' name issued issued'
    have within := (List.getElem?_eq_some_iff.mp found').1
    have last : (past.upTo (j + 1)).last? first.subject.name = some second := by
      rw [History.upTo_succ found', History.last?_add, if_pos name.symm]
    rcases numbers.lawful.kept_or_lost found issued (Nat.le_of_lt before) within with
      ⟨unchanged, _⟩ | ⟨changed, lost⟩
    · have kept : ∀ k between, i ≤ k → k ≤ j → past.elaborations[k]? = some between →
          between.subject.name = first.subject.name → between.outcome = .ok id :=
        fun k between from_ upto => numbers.lawful.outcome_of_unchanged found issued from_
          fun k' between' from_ upto' => unchanged k' between' from_ (Nat.le_trans upto' upto)
      cases (kept j second (Nat.le_of_lt before) (Nat.le_refl j) found' name.symm).symm.trans issued'
      exact ⟨iff_of_true rfl unchanged, fun _ => kept⟩
    · have different : id ≠ id' := by
        rintro rfl
        exact lost second last issued'
      exact ⟨iff_of_false different changed, fun same => absurd same different⟩
  · intro j elaboration found
    have numbered := numbers.lawful j elaboration found
    exact ⟨numbered.again, numbered.fresh, numbers.lawful.countsUp j⟩

end Runs

namespace Sample

/-- A module that comes three times, the last time after it was redeclared. -/
def returning : List Module :=
  [twoWay .bit, ⟨⟨2⟩, [], .dummy⟩, twoWay .bit, twoWay .byte, twoWay .bit]

def returned : List Outcome := [.ok ⟨0⟩, .ok ⟨1⟩, .ok ⟨0⟩, .ok ⟨2⟩, .ok ⟨3⟩]

theorem served_returning :
    ((Session.start {} table).serve (.elaborateAll returning)).map (·.1.outcomes) =
      .ok returned := by
  decide +kernel

end Sample

/-- The module keeps its identifier at first, and loses it when it is redeclared. -/
theorem Run.same_identifier_iff_returning :
    ∃ past session, Run {} Sample.table past session ∧
      past.Unchanged 0 2 (Sample.twoWay .bit) ∧ ¬ past.Unchanged 0 4 (Sample.twoWay .bit) ∧
      session.entities.size = 4 := by
  obtain ⟨⟨⟨_, drained⟩, session⟩, done, same⟩ := ok_of_map Sample.served_returning
  have same : _ = Sample.returned := same
  subst same
  have run : Run {} Sample.table _ session := .serve .start done
  obtain ⟨kept, _, size, _⟩ := run.same_identifier_iff
  refine ⟨_, session, run, ?_, ?_, size.trans rfl⟩
  · exact (kept 0 2 _ _ ⟨0⟩ ⟨0⟩ (by decide) rfl rfl rfl rfl rfl).1.mp rfl
  · exact fun unchanged =>
      absurd ((kept 0 4 _ _ ⟨0⟩ ⟨3⟩ (by decide) rfl rfl rfl rfl rfl).1.mpr unchanged) (by decide)

end HdlPorts
