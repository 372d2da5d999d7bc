import HdlPorts.Proofs.Identifiers
import Mathlib.Data.List.Sort

/-! The order of the current entities.

An entity is stored when it is built, and the current entities are listed in the order in which they
were stored. So an entity stands where the build of its current declaration has put it. That is not
where the name was first built: a name that is declared anew, or built again after it was turned down,
goes behind all that was built in between. The two orders agree on the names of which nothing has
changed since their first build.
-/

set_option autoImplicit false

namespace HdlPorts

namespace History

variable {past : History} {name : Name} {i j k : Nat} {id id' : EntityId}
  {built first second last between elaboration : Elaboration}

/-- When a module of the name was built for the first time. -/
def firstBuilt? (past : History) (name : Name) : Option Nat :=
  past.elaborations.findIdx? fun elaboration =>
    elaboration.subject.name == name && elaboration.succeeded

/-- The elaboration at the position built an entity: it succeeded and did not repeat the one before. -/
structure Builds (past : History) (position : Nat) (elaboration : Elaboration) (id : EntityId) :
    Prop where
  found : past.elaborations[position]? = some elaboration
  outcome : elaboration.outcome = .ok id
  fresh : ∀ id', ¬ (past.upTo position).Repeats elaboration.subject id'

/-- The name was built at the position, and its declaration has not changed since. -/
def BuiltAt (past : History) (name : Name) (position : Nat) (id : EntityId) : Prop :=
  ∃ built, past.Builds position built id ∧ built.subject.name = name ∧
    past.Unchanged position past.elaborations.length built.subject

/-! ## Builds and identifiers -/

theorem upTo_found : (past.upTo j).elaborations[i]? = some elaboration ↔
    i < j ∧ past.elaborations[i]? = some elaboration := by
  rw [upTo, List.getElem?_take, Option.ite_none_right_eq_some]

theorem upTo_succ_of_none (beyond : past.elaborations[j]? = none) :
    past.upTo (j + 1) = past.upTo j := by
  rw [upTo, List.take_add_one, beyond, Option.toList_none, List.append_nil, upTo]

theorem stored_le_add (past : History) (elaboration : Elaboration) :
    past.stored ≤ (past.add elaboration).stored := by
  cases outcome : elaboration.outcome with
  | error rejection => rw [stored_add_error outcome]
  | ok id =>
    rw [stored_add_ok outcome]
    split <;> omega

theorem stored_upTo_le (earlier : i ≤ j) : (past.upTo i).stored ≤ (past.upTo j).stored := by
  induction earlier with
  | refl => exact Nat.le_refl _
  | @step j _ ih =>
    cases found : past.elaborations[j]? with
    | some elaboration =>
      rw [upTo_succ found]
      exact Nat.le_trans ih (stored_le_add _ elaboration)
    | none => rwa [upTo_succ_of_none found]

/-- What is built later gets a higher identifier. -/
theorem Lawful.index_lt (lawful : past.Lawful) (builds : past.Builds i first id)
    (builds' : past.Builds j second id') (before : i < j) : id.index < id'.index := by
  have own := (lawful i first builds.found).fresh builds.fresh id builds.outcome
  have own' := (lawful j second builds'.found).fresh builds'.fresh id' builds'.outcome
  have new : id ∉ (past.upTo i).issued := by
    rw [lawful.countsUp i, own]
    exact Nat.lt_irrefl _
  -- The first of the builds has raised the number that the second one takes.
  have grown : (past.upTo (i + 1)).stored ≤ (past.upTo j).stored := stored_upTo_le before
  rw [upTo_succ builds.found, stored_add_ok builds.outcome, if_neg new] at grown
  omega

theorem Lawful.index_lt_iff (lawful : past.Lawful) (builds : past.Builds i first id)
    (builds' : past.Builds j second id') : id.index < id'.index ↔ i < j := by
  rcases Nat.lt_trichotomy i j with before | rfl | after
  · exact iff_of_true (lawful.index_lt builds builds' before) before
  · cases builds.found.symm.trans builds'.found
    cases builds.outcome.symm.trans builds'.outcome
    exact iff_of_false (Nat.lt_irrefl _) (Nat.lt_irrefl _)
  · have above := lawful.index_lt builds' builds after
    exact iff_of_false (Nat.lt_asymm above) (Nat.lt_asymm after)

/-! ## The build of a current entity -/

/-- After the position of the last elaboration of a name there is none of the name. -/
theorem last?_position (found : past.last? name = some last) :
    ∃ position, past.elaborations[position]? = some last ∧
      ∀ (later : Nat) (elaboration : Elaboration), position < later →
        past.elaborations[later]? = some elaboration → elaboration.subject.name ≠ name := by
  obtain ⟨_, after, before, split, others⟩ := List.find?_eq_some_iff_append.mp found
  have split : past.elaborations = before.reverse ++ last :: after.reverse := by
    rw [← List.reverse_reverse past.elaborations, split, List.reverse_append, List.reverse_cons,
      List.append_assoc, List.singleton_append]
  refine ⟨before.reverse.length, ?_, ?_⟩
  · rw [split, List.getElem?_append_right (Nat.le_refl _), Nat.sub_self, List.getElem?_cons_zero]
  · intro later elaboration above here named
    obtain ⟨n, rfl⟩ := Nat.exists_eq_add_of_lt above
    rw [split, List.getElem?_append_right (by omega), Nat.add_assoc, Nat.add_sub_cancel_left,
      List.getElem?_cons_succ] at here
    have different := others elaboration (List.mem_reverse.mp (List.mem_of_getElem? here))
    simp [named] at different

theorem unchanged_refl (found : past.elaborations[i]? = some first) :
    past.Unchanged i i first.subject := by
  intro k between from_ upto here _
  cases Nat.le_antisymm upto from_
  cases here.symm.trans found
  rfl

theorem Unchanged.mono {m : Module} (unchanged : past.Unchanged i j m) (shorter : k ≤ j) :
    past.Unchanged i k m :=
  fun n between from_ upto => unchanged n between from_ (Nat.le_trans upto shorter)

/-- Past the last elaboration of the name nothing changes. -/
theorem Unchanged.extend {m : Module} (unchanged : past.Unchanged i k m)
    (others : ∀ (later : Nat) (elaboration : Elaboration), k < later → later ≤ j →
      past.elaborations[later]? = some elaboration → elaboration.subject.name ≠ m.name) :
    past.Unchanged i j m := by
  intro n between from_ upto here named
  rcases Nat.lt_or_ge k n with beyond | within
  · exact absurd named (others n between beyond upto here)
  · exact unchanged n between from_ within here named

/-- Behind an elaboration that succeeded there is a build since which its name has not changed. -/
theorem Lawful.exists_builds (lawful : past.Lawful) (found : past.elaborations[k]? = some between)
    (outcome : between.outcome = .ok id) :
    ∃ i built, i ≤ k ∧ past.Builds i built id ∧ built.subject.name = between.subject.name ∧
      past.Unchanged i k built.subject := by
  induction k using Nat.strongRecOn generalizing between with
  | ind k ih =>
    by_cases repeats : ∃ id', (past.upTo k).Repeats between.subject id'
    · -- Go on from the elaboration that is repeated.
      obtain ⟨id', last, latest, issued, digest⟩ := repeats
      cases outcome.symm.trans ((lawful k between found).again id' ⟨last, latest, issued, digest⟩)
      have named := (last?_some latest).2
      obtain ⟨position, here, others⟩ := last?_position latest
      obtain ⟨before, here⟩ := upTo_found.mp here
      obtain ⟨i, built, below, builds, name, unchanged⟩ := ih position before here issued
      refine ⟨i, built, Nat.le_trans below (Nat.le_of_lt before), builds, name.trans named, ?_⟩
      have same := unchanged position last below (Nat.le_refl _) here name.symm
      obtain ⟨k, rfl⟩ := Nat.exists_eq_succ_of_ne_zero (Nat.ne_zero_of_lt before)
      refine Unchanged.succ ?_ found fun _ => digest.symm.trans same
      refine unchanged.extend fun later elaboration above upto there => ?_
      rw [name, named]
      exact others later elaboration above (upTo_found.mpr ⟨Nat.lt_succ_of_le upto, there⟩)
    · exact ⟨k, between, Nat.le_refl _, ⟨found, outcome, not_exists.mp repeats⟩, rfl,
        unchanged_refl found⟩

/-- The identifier that the last elaboration of a name handed out comes from a build since which
nothing changed. -/
theorem Lawful.exists_builtAt_iff (lawful : past.Lawful) :
    (∃ i, past.BuiltAt name i id) ↔
      ∃ last, past.last? name = some last ∧ last.outcome = .ok id := by
  constructor
  · rintro ⟨i, built, builds, rfl, unchanged⟩
    have within := (List.getElem?_eq_some_iff.mp builds.found).1
    have size : past.elaborations.length - 1 + 1 = past.elaborations.length := by omega
    rcases lawful.kept_or_lost builds.found builds.outcome (Nat.le_sub_one_of_lt within)
      (by omega) with ⟨_, kept⟩ | ⟨changed, _⟩
    · rw [size, upTo_length] at kept
      obtain ⟨last, latest, issued, _⟩ := kept
      exact ⟨last, latest, issued⟩
    · exact absurd (unchanged.mono (Nat.sub_le _ 1)) changed
  · rintro ⟨last, latest, issued⟩
    obtain ⟨k, found, others⟩ := last?_position latest
    obtain ⟨i, built, _, builds, same, unchanged⟩ := lawful.exists_builds found issued
    have named := same.trans (last?_some latest).2
    refine ⟨i, built, builds, named, unchanged.extend fun later elaboration above _ here => ?_⟩
    rw [named]
    exact others later elaboration above here

theorem Lawful.builtAt_unique (lawful : past.Lawful) (current : past.BuiltAt name i id)
    (current' : past.BuiltAt name j id') : i = j := by
  obtain ⟨last, latest, issued⟩ := lawful.exists_builtAt_iff.mp ⟨i, current⟩
  obtain ⟨last', latest', issued'⟩ := lawful.exists_builtAt_iff.mp ⟨j, current'⟩
  cases latest.symm.trans latest'
  cases issued.symm.trans issued'
  obtain ⟨_, builds, _⟩ := current
  obtain ⟨_, builds', _⟩ := current'
  have ahead := lawful.index_lt_iff builds builds'
  have behind := lawful.index_lt_iff builds' builds
  omega

/-! ## The first build of a name -/

theorem firstBuilt?_spec (first : past.firstBuilt? name = some k) :
    (∃ built id, past.elaborations[k]? = some built ∧ built.subject.name = name ∧
      built.outcome = .ok id) ∧
    ∀ earlier (elaboration : Elaboration), past.elaborations[earlier]? = some elaboration →
      earlier < k → elaboration.subject.name = name → ∀ id, elaboration.outcome ≠ .ok id := by
  obtain ⟨bound, here, others⟩ := List.findIdx?_eq_some_iff_getElem.mp first
  rw [Bool.and_eq_true, beq_iff_eq, Elaboration.succeeded_iff] at here
  obtain ⟨named, id, outcome⟩ := here
  refine ⟨⟨_, id, List.getElem?_eq_getElem bound, named, outcome⟩, ?_⟩
  intro earlier elaboration found before named id outcome
  obtain ⟨_, rfl⟩ := List.getElem?_eq_some_iff.mp found
  refine others earlier before ?_
  rw [Bool.and_eq_true, beq_iff_eq, Elaboration.succeeded_iff]
  exact ⟨named, id, outcome⟩

theorem exists_firstBuilt? (found : past.elaborations[i]? = some elaboration)
    (outcome : elaboration.outcome = .ok id) :
    ∃ k, past.firstBuilt? elaboration.subject.name = some k := by
  refine Option.isSome_iff_exists.mp ?_
  rw [firstBuilt?, List.findIdx?_isSome, List.any_eq_true]
  refine ⟨elaboration, List.mem_of_getElem? found, ?_⟩
  rw [Bool.and_eq_true, beq_iff_eq, Elaboration.succeeded_iff]
  exact ⟨rfl, id, outcome⟩

/-- The first elaboration of a name that succeeds has nothing to repeat. -/
theorem builds_of_firstBuilt? (first : past.firstBuilt? name = some k) :
    ∃ built id, past.Builds k built id ∧ built.subject.name = name := by
  obtain ⟨⟨built, id, found, named, outcome⟩, others⟩ := firstBuilt?_spec first
  refine ⟨built, id, ⟨found, outcome, ?_⟩, named⟩
  rintro id' ⟨last, latest, issued, _⟩
  obtain ⟨member, same⟩ := last?_some latest
  obtain ⟨earlier, here⟩ := List.mem_iff_getElem?.mp member
  obtain ⟨before, here⟩ := upTo_found.mp here
  exact others earlier last here before (same.trans named) id' issued

/-- What is current was not built before the first build of its name, and was built then exactly if
nothing has changed since. -/
theorem Lawful.firstBuilt?_of_builtAt (lawful : past.Lawful) (current : past.BuiltAt name i id) :
    ∃ k built, past.firstBuilt? name = some k ∧ past.elaborations[k]? = some built ∧ k ≤ i ∧
      (k = i ↔ past.Unchanged k past.elaborations.length built.subject) := by
  have ⟨last, builds, same, unchanged⟩ := current
  subst same
  obtain ⟨k, first⟩ := exists_firstBuilt? builds.found builds.outcome
  obtain ⟨built, id', builds', named⟩ := builds_of_firstBuilt? first
  refine ⟨k, built, first, builds'.found, ?_, ?_, ?_⟩
  · refine Nat.le_of_not_lt fun before => ?_
    exact (firstBuilt?_spec first).2 i last builds.found before rfl id builds.outcome
  · rintro rfl
    cases builds.found.symm.trans builds'.found
    exact unchanged
  · intro unchanged'
    exact lawful.builtAt_unique ⟨built, builds', named, unchanged'⟩ current

end History

/-! ## The list of current entities -/

/-- In a list that is sorted by rank the item of lower rank comes first. -/
theorem pair_sublist_iff {α : Type} {rank : α → Nat} {items : List α} {first second : α}
    (sorted : items.Pairwise fun first second => rank first < rank second)
    (listed : first ∈ items) (listed' : second ∈ items) :
    [first, second].Sublist items ↔ rank first < rank second := by
  constructor
  · exact fun sublist => List.pairwise_iff_forall_sublist.mp sorted sublist
  · intro lower
    have : Std.Antisymm fun first second : α => rank first < rank second :=
      ⟨fun _ _ ahead behind => absurd behind (Nat.lt_asymm ahead)⟩
    have different : first ≠ second := fun same => Nat.lt_irrefl _ (same ▸ lower)
    refine List.sublist_of_subperm_of_pairwise (List.subperm_of_subset ?_ ?_)
      (List.pairwise_pair.mpr lower) sorted
    · exact List.nodup_cons.mpr ⟨List.mem_singleton.not.mpr different, List.nodup_singleton _⟩
    · exact List.cons_subset.mpr ⟨listed, List.cons_subset.mpr ⟨listed', List.nil_subset _⟩⟩

namespace Session

variable {session : Session} {past : History} {name other : Name} {id id' : EntityId}
  {first second : Entity}

theorem mem_live_entries (keys : (session.current.map (·.1)).Nodup)
    (here : session.currentOf? name = some id) (found : session.get? id = some first) :
    (id, first) ∈ session.entities.entries.filter (·.1 ∈ session.current.map (·.2)) := by
  refine List.mem_filter.mpr ⟨Arena.mem_entries.mpr found, decide_eq_true ?_⟩
  exact List.mem_map.mpr ⟨(name, id), (mem_current_iff keys).mpr here, rfl⟩

/-- Of two current entities that with the lower identifier is listed first. -/
theorem pair_sublist_currentEntities (keys : (session.current.map (·.1)).Nodup)
    (resolves : session.Resolves) (here : session.currentOf? name = some id)
    (found : session.get? id = some first) (here' : session.currentOf? other = some id')
    (found' : session.get? id' = some second) :
    [first, second].Sublist session.currentEntities ↔ id.index < id'.index := by
  have listed := mem_live_entries keys here found
  have listed' := mem_live_entries keys here' found'
  have nodup := currentEntities_nodup keys resolves
  rw [currentEntities_eq keys resolves] at nodup ⊢
  have sorted := session.entities.entries_ordered.sublist
    (List.filter_sublist (p := fun entry => entry.1 ∈ session.current.map (·.2)))
  rw [← pair_sublist_iff sorted listed listed']
  constructor
  · -- An entity is in one entry only, so the entries of the sublist are the two that are known.
    intro sublist
    obtain ⟨entries, inner, same⟩ := List.sublist_map_iff.mp sublist
    obtain ⟨entry, _, rfl, entity, same⟩ := List.map_eq_cons_iff.mp same.symm
    obtain ⟨entry', _, rfl, entity', same⟩ := List.map_eq_cons_iff.mp same
    cases List.map_eq_nil_iff.mp same
    have member := inner.subset List.mem_cons_self
    have member' := inner.subset (List.mem_cons_of_mem _ List.mem_cons_self)
    rwa [List.inj_on_of_nodup_map nodup member listed entity,
      List.inj_on_of_nodup_map nodup member' listed' entity'] at inner
  · exact fun sublist => sublist.map Prod.snd

theorem Numbers.currentOf?_iff (numbers : session.Numbers past) :
    session.currentOf? name = some id ↔ ∃ i, past.BuiltAt name i id := by
  rw [numbers.lawful.exists_builtAt_iff, numbers.remembers.latest, Option.bind_eq_some_iff]
  simp only [idOf_eq_some]

end Session

section Runs

variable {settings : Settings} {names : Names} {past : History} {session : Session}

/-- The current entity of a name is that of the build since which nothing has changed, and the current
entities are listed in the order of these builds. That order is the order of the first builds only as
far as nothing has changed since: otherwise an entity stands behind the place of the first build. -/
theorem Run.current_in_build_order (run : Run settings names past session) :
    (∀ name id, session.currentOf? name = some id ↔ ∃ i, past.BuiltAt name i id) ∧
      (∀ name other i j id id' first second, past.BuiltAt name i id → past.BuiltAt other j id' →
        session.entity? name = some first → session.entity? other = some second →
        ([first, second].Sublist session.currentEntities ↔ i < j)) ∧
      ∀ name i id, past.BuiltAt name i id → ∃ k built, past.firstBuilt? name = some k ∧
        past.elaborations[k]? = some built ∧ k ≤ i ∧
        (k = i ↔ past.Unchanged k past.elaborations.length built.subject) := by
  have numbers := run.numbers
  obtain ⟨keys, resolves, _⟩ := numbers.remembers
  refine ⟨fun name id => numbers.currentOf?_iff, ?_,
    fun name i id current => numbers.lawful.firstBuilt?_of_builtAt current⟩
  intro name other i j id id' first second current current' found found'
  obtain ⟨slot, here, stored⟩ := Session.entity?_eq_some.mp found
  obtain ⟨slot', here', stored'⟩ := Session.entity?_eq_some.mp found'
  cases here.symm.trans (numbers.currentOf?_iff.mpr ⟨i, current⟩)
  cases here'.symm.trans (numbers.currentOf?_iff.mpr ⟨j, current'⟩)
  obtain ⟨_, builds, _⟩ := current
  obtain ⟨_, builds', _⟩ := current'
  rw [Session.pair_sublist_currentEntities keys resolves here stored here' stored']
  exact numbers.lawful.index_lt_iff builds builds'

end Runs

/-! ## A module that is declared anew -/

namespace Sample

/-- A module is declared anew after another one was built. -/
def overtaken : List Module := [twoWay .bit, ⟨⟨2⟩, [], .dummy⟩, twoWay .byte]

def overtakenOutcomes : List Outcome := [.ok ⟨0⟩, .ok ⟨1⟩, .ok ⟨2⟩]

theorem served_overtaken :
    ((Session.start {} table).serve (.elaborateAll overtaken)).map
        (fun served => (served.1.outcomes, served.2.current)) =
      .ok (overtakenOutcomes, [(⟨0⟩, ⟨2⟩), (⟨2⟩, ⟨1⟩)]) := by
  decide +kernel

/-- The run that elaborates the batch, and what is current after it. -/
theorem run_overtaken :
    ∃ drained session, Run {} table (({} : History).extend (.elaborateAll overtaken)
        ⟨overtakenOutcomes, drained⟩ session) session ∧
      session.current = [(⟨0⟩, ⟨2⟩), (⟨2⟩, ⟨1⟩)] := by
  obtain ⟨⟨⟨_, drained⟩, session⟩, done, same⟩ := ok_of_map served_overtaken
  obtain ⟨outcomes, current⟩ := Prod.mk.inj same
  have outcomes : _ = overtakenOutcomes := outcomes
  subst outcomes
  exact ⟨drained, session, .serve .start done, current⟩

/-- The module that was declared anew was built last. -/
theorem builtAt_overtaken (drained : List Diagnostic) (session : Session) :
    let past := ({} : History).extend (.elaborateAll overtaken)
      ⟨overtakenOutcomes, drained⟩ session
    past.BuiltAt ⟨0⟩ 2 ⟨2⟩ ∧ past.BuiltAt ⟨2⟩ 1 ⟨1⟩ := by
  refine ⟨⟨_, ⟨rfl, rfl, ?_⟩, rfl, ?_⟩, ⟨_, ⟨rfl, rfl, ?_⟩, rfl, ?_⟩⟩
  · rintro _ ⟨_, ⟨⟩, _, digest⟩
    have digest : (twoWay .bit).digest = (twoWay .byte).digest := digest
    exact absurd digest (by decide +kernel)
  · refine (History.unchanged_refl rfl).extend fun later _ beyond _ found => ?_
    rw [List.getElem?_eq_none beyond] at found
    cases found
  · rintro _ ⟨_, ⟨⟩, _⟩
  · refine (History.unchanged_refl rfl).extend fun later _ beyond _ found => ?_
    match later, found with
    | 2, rfl => exact (by decide : (⟨0⟩ : Name) ≠ ⟨2⟩)
    | n + 3, found => cases found

end Sample

/-- The module that was declared anew stands last, though it was built first. -/
theorem Run.current_in_build_order_overtaken :
    ∃ past session first second, Run {} Sample.table past session ∧
      past.firstBuilt? ⟨0⟩ = some 0 ∧ past.firstBuilt? ⟨2⟩ = some 1 ∧
      session.entity? ⟨0⟩ = some first ∧ session.entity? ⟨2⟩ = some second ∧
      [second, first].Sublist session.currentEntities := by
  obtain ⟨drained, session, run, _⟩ := Sample.run_overtaken
  obtain ⟨last, middle⟩ := Sample.builtAt_overtaken drained session
  obtain ⟨located, ordered, _⟩ := run.current_in_build_order
  have here := (located ⟨0⟩ ⟨2⟩).mpr ⟨2, last⟩
  have here' := (located ⟨2⟩ ⟨1⟩).mpr ⟨1, middle⟩
  obtain ⟨first, stored, _⟩ := run.remembers.resolves _ _ here
  obtain ⟨second, stored', _⟩ := run.remembers.resolves _ _ here'
  have found := Session.entity?_eq_some.mpr ⟨_, here, stored⟩
  have found' := Session.entity?_eq_some.mpr ⟨_, here', stored'⟩
  refine ⟨_, session, first, second, run, rfl, rfl, found, found', ?_⟩
  exact (ordered _ _ _ _ _ _ _ _ middle last found' found).mpr (by decide)

/-- The current entities are not listed in the order in which their names were first built. -/
theorem Run.first_builds_out_of_order :
    ¬ ∀ settings names past session, Run settings names past session →
      ∀ name other i j first second, past.firstBuilt? name = some i →
        past.firstBuilt? other = some j → session.entity? name = some first →
        session.entity? other = some second →
        ([first, second].Sublist session.currentEntities ↔ i < j) := by
  intro ordered
  obtain ⟨drained, session, run, current⟩ := Sample.run_overtaken
  obtain ⟨keys, resolves, _⟩ := run.remembers
  have here : session.currentOf? ⟨0⟩ = some ⟨2⟩ := by rw [Session.currentOf?, current]; rfl
  have here' : session.currentOf? ⟨2⟩ = some ⟨1⟩ := by rw [Session.currentOf?, current]; rfl
  obtain ⟨first, stored, _⟩ := resolves _ _ here
  obtain ⟨second, stored', _⟩ := resolves _ _ here'
  have listed := (ordered {} Sample.table _ session run ⟨0⟩ ⟨2⟩ 0 1 first second rfl rfl
    (Session.entity?_eq_some.mpr ⟨_, here, stored⟩)
    (Session.entity?_eq_some.mpr ⟨_, here', stored'⟩)).mpr (by decide)
  rw [Session.pair_sublist_currentEntities keys resolves here stored here' stored'] at listed
  exact absurd listed (by decide)

end HdlPorts
