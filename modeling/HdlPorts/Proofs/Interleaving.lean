import HdlPorts.Proofs.Caching
import HdlPorts.Proofs.Schedules

/-! The order of the builds does not matter.

After the first pass of a batch two schedules have left tables with the same texts and results that
are alike. The second pass goes through the batch in step: the caches agree, what has to be built
again is built alike, and the same rejections are logged. In the end both sessions are the same but
for the keys of companions that were new.
-/

set_option autoImplicit false

namespace HdlPorts

namespace Session

variable {base names others after later : Names} {session other : Session} {m : Module}

/-! ## Results of the first pass -/

/-- Both builds have made entities that are alike, or both were turned down for the same reason. -/
inductive BuiltAlike (names others : Names) :
    Except Rejection Entity → Except Rejection Entity → Prop where
  | entity {entity entity' : Entity} : entity.Alike names others entity' →
      BuiltAlike names others (.ok entity) (.ok entity')
  | rejection {rejection : Rejection} :
      BuiltAlike names others (.error rejection) (.error rejection)

theorem BuiltAlike.grows {result result' : Except Rejection Entity}
    (built : BuiltAlike names others result result') (grows : names.Grows after)
    (grows' : others.Grows later) : BuiltAlike after later result result' := by
  cases built with
  | entity alike => exact .entity (alike.grows grows grows')
  | rejection => exact .rejection

/-- What is alike after the first pass is alike in later tables. -/
theorem builtAlike_grows {built built' : List (Option (Except Rejection Entity))}
    (same : List.Forall₂ (Option.Rel (BuiltAlike names others)) built built')
    (grows : names.Grows after) (grows' : others.Grows later) :
    List.Forall₂ (Option.Rel (BuiltAlike after later)) built built' := by
  refine same.imp fun _ _ each => ?_
  cases each with
  | none => exact .none
  | some alike => exact .some (alike.grows grows grows')

theorem settle_alike {result result' : Attempt Rejection Entity}
    (alike : Attempt.Alike Entity.Alike names others result result') :
    Checked.Related (BuiltAlike names others) result.settle result'.settle := by
  cases alike with
  | ok alike => exact .ok (.entity alike)
  | refused same =>
    cases same
    exact .ok .rejection
  | broken => exact .error

theorem settleAll_alike {results results' : List (Option (Attempt Rejection Entity))}
    (alike : List.Forall₂ (Option.Rel (Attempt.Alike Entity.Alike names others)) results results') :
    Checked.Related (List.Forall₂ (Option.Rel (BuiltAlike names others))) (settleAll results)
      (settleAll results') := by
  induction alike with
  | nil => exact .ok .nil
  | cons first _ ih =>
    cases first with
    | none => exact ih.bind fun _ _ rest => .ok (.cons .none rest)
    | some alike =>
      exact (settle_alike alike).bind fun _ _ first =>
        ih.bind fun _ _ rest => .ok (.cons (.some first) rest)

/-! ## The second pass -/

/-- The sessions are equal up to the keys of companions that were entered since the table was
`base`. -/
structure Alike (base : Names) (session other : Session) : Prop where
  settings : other.settings = session.settings
  log : other.log = session.log
  current : other.current = session.current
  entities : List.Forall₂ (Entity.Alike session.names other.names) session.entities.items
    other.entities.items
  texts : ∀ text, text ∈ session.names.texts ↔ text ∈ other.names.texts
  grows : base.Grows session.names
  grows' : base.Grows other.names

/-- Two calls give the same answer and leave sessions that are alike. -/
structure Agree {α : Type} (base : Names) (result result' : α × Session) : Prop where
  answer : result'.1 = result.1
  alike : result.2.Alike base result'.2

theorem Alike.size (alike : session.Alike base other) :
    other.entities.size = session.entities.size :=
  alike.entities.length_eq.symm

theorem Alike.get? (alike : session.Alike base other) (id : EntityId) :
    Option.Rel (Entity.Alike session.names other.names) (session.entities.get? id)
      (other.entities.get? id) :=
  forall₂_getElem? alike.entities id.index

/-- What is cached in one session is cached in the other. -/
theorem Alike.cached? (alike : session.Alike base other) (name : Name) (digest : Digest) :
    other.cached? name digest = session.cached? name digest := by
  unfold Session.cached? currentOf?
  rw [alike.current]
  cases session.current.find? (·.1 == name) with
  | none => rfl
  | some entry =>
    have found := alike.get? entry.2
    simp only [Option.map_some, bind, Option.bind]
    generalize session.entities.get? entry.2 = stored at found
    generalize other.entities.get? entry.2 = stored' at found
    cases found with
    | none => rfl
    | some same => rw [same.same]

theorem Alike.enter (alike : session.Alike base other) {more : List String}
    (gains : session.names.Gains after more) (gains' : other.names.Gains later more) :
    Alike base { session with names := after } { other with names := later } where
  settings := alike.settings
  log := alike.log
  current := alike.current
  entities := alike.entities.imp fun _ _ each => each.grows gains.grows gains'.grows
  texts text := by
    rw [gains.texts, gains'.texts, alike.texts]
  grows := alike.grows.trans gains.grows
  grows' := alike.grows'.trans gains'.grows

theorem Alike.adopt (alike : session.Alike base other) {result result' : Except Rejection Entity}
    (built : BuiltAlike session.names other.names result result') (name : Name) :
    Agree base (session.adopt name result) (other.adopt name result') := by
  cases built with
  | entity same =>
    refine ⟨?_, alike.settings, alike.log, ?_, ?_, alike.texts, alike.grows, alike.grows'⟩
    · exact congrArg (fun size => (.ok ⟨size⟩ : Outcome)) alike.size
    · change (name, Slot.mk other.entities.size) :: other.current.filter (·.1 != name) = _
      rw [alike.size, alike.current]
      rfl
    · exact List.rel_append alike.entities (.cons same .nil)
  | @rejection rejection =>
    refine ⟨rfl, alike.settings, ?_, ?_, alike.entities, alike.texts, alike.grows, alike.grows'⟩
    · change other.log.record rejection.diagnostic = _
      rw [alike.log]
      rfl
    · change other.current.filter (·.1 != name) = _
      rw [alike.current]
      rfl

theorem Alike.elaborate (alike : session.Alike base other) (entered : m.Entered base) :
    Checked.Related (Agree base) (session.elaborate m) (other.elaborate m) := by
  have same := alike.cached? m.name m.digest
  cases hit : session.cached? m.name m.digest with
  | some id =>
    rw [elaborate_of_cached hit, elaborate_of_cached (same.trans hit)]
    exact .ok ⟨rfl, alike⟩
  | none =>
    have inStep := Module.buildWith_inStep m.digest session.settings entered alike.grows alike.grows'
    cases made : m.buildWith m.digest session.settings session.names with
    | mk attempt after =>
      cases made' : m.buildWith m.digest session.settings other.names with
      | mk attempt' later =>
        rw [made, made'] at inStep
        obtain ⟨more, gains, gains', related⟩ := inStep
        rw [← alike.settings] at made'
        rw [elaborate_of_missed hit made, elaborate_of_missed (same.trans hit) made']
        exact (settle_alike related).bind fun _ _ built =>
          .ok ((alike.enter gains gains').adopt built m.name)

theorem grows_elaborateBuilt {built : Option (Except Rejection Entity)} {outcome : Outcome}
    {last : Session} (done : session.elaborateBuilt m built = .ok (outcome, last)) :
    session.names.Grows last.names := by
  cases built with
  | none => exact (step_of_elaborate done).grows
  | some result =>
    rw [elaborateBuilt_some] at done
    cases result with
    | ok entity =>
      cases done
      exact .refl session.names
    | error rejection =>
      cases done
      exact .refl session.names

theorem Alike.elaborateBuilt (alike : session.Alike base other) (entered : m.Entered base)
    {built built' : Option (Except Rejection Entity)}
    (same : Option.Rel (BuiltAlike session.names other.names) built built') :
    Checked.Related (Agree base) (session.elaborateBuilt m built)
      (other.elaborateBuilt m built') := by
  cases same with
  | none => exact alike.elaborate entered
  | some same =>
    rw [elaborateBuilt_some, elaborateBuilt_some]
    exact .ok (alike.adopt same m.name)

theorem Alike.replay {modules : List Module} (alike : session.Alike base other)
    (entered : ∀ m ∈ modules, m.Entered base)
    {built built' : List (Option (Except Rejection Entity))}
    (same : List.Forall₂ (Option.Rel (BuiltAlike session.names other.names)) built built') :
    Checked.Related (Agree base) (session.replay (modules.zip built))
      (other.replay (modules.zip built')) := by
  induction modules generalizing session other built built' with
  | nil => exact .ok ⟨rfl, alike⟩
  | cons m rest ih =>
    cases same with
    | nil => exact .ok ⟨rfl, alike⟩
    | @cons first first' _ _ own others =>
      have step := alike.elaborateBuilt (entered m List.mem_cons_self) own
      have grows {outcome : Outcome} {last : Session}
          (done : session.elaborateBuilt m first = .ok (outcome, last)) := grows_elaborateBuilt done
      have grows' {outcome : Outcome} {last : Session}
          (done : other.elaborateBuilt m first' = .ok (outcome, last)) := grows_elaborateBuilt done
      rw [List.zip_cons_cons, List.zip_cons_cons, Session.replay, Session.replay]
      generalize session.elaborateBuilt m first = left at step grows
      generalize other.elaborateBuilt m first' = right at step grows'
      cases step with
      | error => exact .error
      | @ok result result' agree =>
        obtain ⟨outcome, middle⟩ := result
        obtain ⟨outcome', middle'⟩ := result'
        -- The step may have entered names. What the first pass has built is alike in larger tables.
        have others := builtAlike_grows others (grows rfl) (grows' rfl)
        have answer : outcome' = outcome := agree.answer
        rw [answer]
        exact (ih agree.alike (fun other member => entered other (List.mem_cons_of_mem _ member))
          others).bind fun _ _ further => .ok ⟨congrArg (outcome :: ·) further.answer, further.alike⟩

/-! ## Two schedules -/

section Schedules

variable {modules : List Module} {schedule schedule' : List Nat}
  {result result' : Checked (List Outcome × Session)}

theorem finished_of_schedule (entered : ∀ m ∈ modules, m.Entered session.names)
    (finished : session.elaborateAllBy schedule modules = some result) :
    ∃ results names, Finished session.settings session.names
        (modules.zip (session.pick [] modules)) results names ∧
      result = (do
        let built ← settleAll results
        ({ session with names } : Session).replay (modules.zip built)) := by
  obtain ⟨results, ended, rfl⟩ := Option.map_eq_some_iff.mp finished
  have underway : Underway session.settings session.names
      (modules.zip (session.pick [] modules)) _ _ :=
    underway_jobs fun m digest listed => entered m (List.of_mem_zip listed).1
  exact ⟨results, _, (underway.turns schedule).finished ended, rfl⟩

/-- Whatever two schedules are, if all builds come to an end the batch gives the same answers and
leaves sessions that are alike. -/
theorem elaborateAllBy_alike (entered : ∀ m ∈ modules, m.Entered session.names)
    (spelled : ∀ entity ∈ session.entities.items, entity.Alike session.names session.names entity)
    (finished : session.elaborateAllBy schedule modules = some result)
    (finished' : session.elaborateAllBy schedule' modules = some result') :
    Checked.Related (Agree session.names) result result' := by
  obtain ⟨results, names, one, rfl⟩ := finished_of_schedule entered finished
  obtain ⟨results', others, two, rfl⟩ := finished_of_schedule entered finished'
  have alike : Alike session.names { session with names } { session with names := others } :=
    { settings := rfl
      log := rfl
      current := rfl
      entities := List.forall₂_same.mpr fun entity member =>
        (spelled entity member).grows one.grows two.grows
      texts := fun text => ⟨one.subset two text, two.subset one text⟩
      grows := one.grows
      grows' := two.grows }
  exact (settleAll_alike (one.alike two)).bind fun _ _ built => alike.replay entered built

end Schedules

/-! ## Batches without faults -/

theorem buildPicked_ok (settings : Settings) (start : Session) {modules : List Module}
    (sound : ∀ m ∈ modules, m.Entered names ∧ m.Readable) (seen : List (Name × Digest)) :
    ∃ built last, buildPicked settings (modules.zip (start.pick seen modules)) names =
      .ok (built, last) := by
  induction modules generalizing names seen with
  | nil => exact ⟨[], names, rfl⟩
  | cons m rest ih =>
    have sound' := fun other member => sound other (List.mem_cons_of_mem m member)
    by_cases covered : start.Covered seen m
    · obtain ⟨built, last, made⟩ := ih sound' seen
      refine ⟨none :: built, last, ?_⟩
      rw [pick_covered covered, List.zip_cons_cons, buildPicked, made]
      rfl
    · obtain ⟨entered, readable⟩ := sound m List.mem_cons_self
      have unbroken := Module.unbroken_build entered readable settings
      have grows := m.grows_buildWith m.digest settings names
      rw [Module.build] at unbroken
      rw [pick_uncovered covered, List.zip_cons_cons, buildPicked]
      cases first : m.buildWith m.digest settings names with
      | mk result after =>
        rw [first] at unbroken grows
        obtain ⟨built, last, made⟩ := ih (fun other member =>
          ⟨(sound' other member).1.grows grows, (sound' other member).2⟩) ((m.name, m.digest) :: seen)
        cases settled : result.settle with
        | error fault => exact absurd (Attempt.eq_broken settled) (unbroken fault)
        | ok own =>
          refine ⟨some own :: built, last, ?_⟩
          simp only [settled, bind, Except.bind, made]
          rfl

theorem replay_ok {modules : List Module}
    (sound : ∀ m ∈ modules, m.Entered session.names ∧ m.Readable)
    (built : List (Option (Except Rejection Entity))) :
    ∃ outcomes last, session.replay (modules.zip built) = .ok (outcomes, last) := by
  induction modules generalizing session built with
  | nil => exact ⟨[], session, rfl⟩
  | cons m rest ih =>
    cases built with
    | nil => exact ⟨[], session, rfl⟩
    | cons own others =>
      have one : ∃ outcome middle, session.elaborateBuilt m own = .ok (outcome, middle) := by
        obtain ⟨entered, readable⟩ := sound m List.mem_cons_self
        cases own with
        | none => exact elaborate_ok entered readable
        | some result => exact ⟨_, _, elaborateBuilt_some session m result⟩
      obtain ⟨outcome, middle, first⟩ := one
      have grows := grows_elaborateBuilt first
      have sound' : ∀ other ∈ rest, other.Entered middle.names ∧ other.Readable :=
        fun other member => ⟨(sound other (List.mem_cons_of_mem _ member)).1.grows grows,
          (sound other (List.mem_cons_of_mem _ member)).2⟩
      obtain ⟨outcomes, last, done⟩ := ih sound' others
      refine ⟨outcome :: outcomes, last, ?_⟩
      rw [List.zip_cons_cons, Session.replay, first]
      simp only [bind, Except.bind, done]
      rfl

theorem elaborateAll_ok {modules : List Module}
    (sound : ∀ m ∈ modules, m.Entered session.names ∧ m.Readable) :
    ∃ outcomes last, session.elaborateAll modules = .ok (outcomes, last) := by
  obtain ⟨built, names, made⟩ := buildPicked_ok session.settings session sound []
  have grows := grows_buildPicked made
  rw [elaborateAll, made]
  exact replay_ok (fun m member => ⟨(sound m member).1.grows grows, (sound m member).2⟩) built

end Session

/-! ## What can be seen -/

/-- The entities are printed alike, and the signals in one slot have the same key unless they are
companions whose names are new. -/
structure Entity.ShownAlike (base names others : Names) (entity other : Entity) : Prop where
  listing : other.listing others = entity.listing names
  keys : ∀ slot signal signal', entity.signal? slot = some signal →
    other.signal? slot = some signal' → signal'.name ≠ signal.name →
      signal.isCompanion = true ∧ ¬ base.Holds signal.name ∧ ¬ base.Holds signal'.name

theorem Entity.Alike.shown {base names others : Names} {entity other : Entity}
    (alike : entity.Alike names others other) (grows : base.Grows names)
    (grows' : base.Grows others) : entity.ShownAlike base names others other := by
  refine ⟨alike.listing, ?_⟩
  intro slot signal signal' found found' different
  have same := alike.signal? slot
  rw [found, found'] at same
  cases same with
  | some same =>
    refine ⟨?_, ?_, ?_⟩
    · cases side : signal.isCompanion with
      | true => rfl
      | false => exact absurd (same.own side) different
    · -- A name from before has its key in both tables.
      intro holds
      exact different (((holds.sameText grows grows').eq_iff same.spelled).mp rfl).symm
    · intro holds
      exact different (((holds.sameText grows grows').eq_iff same.spelled).mpr rfl)

/-- Two batches give the same outcomes and leave sessions that are equal up to the keys of new
companions. -/
structure Session.SameUpToKeys (base : Names) (result result' : List Outcome × Session) : Prop where
  outcomes : result'.1 = result.1
  alike : result.2.Alike base result'.2
  shown : List.Forall₂ (Entity.ShownAlike base result.2.names result'.2.names)
    result.2.entities.items result'.2.entities.items

/-! ## Runs -/

section Runs

variable {settings : Settings} {names : Names} {past : History} {session : Session}

/-- A build is alike itself: it has spelled all its names. -/
theorem Module.Settled.spelled {m : Module} {entity : Entity}
    (settled : m.Settled settings names (.ok entity)) : entity.Alike names names entity := by
  have built : m.buildWith m.digest settings names = (.ok entity, names) := settled names (.refl names)
  obtain ⟨_, _, _, related⟩ := buildWith_inStep m.digest settings (entered_of_build built)
    (.refl names) (.refl names)
  rw [built] at related
  cases related with
  | ok alike => exact alike

theorem Run.spelled (run : Run settings names past session) :
    ∀ entity ∈ session.entities.items, entity.Alike session.names session.names entity := by
  apply run.preserve (motive := fun _ session =>
    ∀ entity ∈ session.entities.items, entity.Alike session.names session.names entity)
  · intro entity impossible
    cases impossible
  · intro past session later spelled grows entity member
    exact (spelled entity member).grows grows grows
  · intro past session spelled
    exact spelled
  · intro past session m outcome after spelled step entity member
    cases step with
    | again _ => exact spelled entity member
    | @stored stored names _ grows settled =>
      rcases List.mem_append.mp member with old | new
      · exact (spelled entity old).grows grows grows
      · rw [List.mem_singleton.mp new]
        exact settled.spelled
    | rejected _ grows _ => exact (spelled entity member).grows grows grows

/-- However the builds of a batch take turns, the batch ends as it does when they run in its order:
with the same outcomes, the same diagnostics and the same texts in the table, and with entities that
are the same up to the keys of new companions; or else in the same fault. It meets no fault if the
literals have their words. -/
theorem Run.schedule_irrelevant (run : Run settings names past session) {modules : List Module}
    {schedule : List Nat} {result : Checked (List Outcome × Session)}
    (entered : ∀ m ∈ modules, m.Entered session.names)
    (finished : session.elaborateAllBy schedule modules = some result) :
    Checked.Related (Session.SameUpToKeys session.names) (session.elaborateAll modules) result ∧
      ((∀ m ∈ modules, m.Readable) →
        ∃ outcomes after, session.elaborateAll modules = .ok (outcomes, after)) := by
  -- To build in the order of the batch is one of the schedules.
  have inOrder := session.elaborateAllBy_inOrder modules
  refine ⟨?_, fun readable => Session.elaborateAll_ok fun m member =>
    ⟨entered m member, readable m member⟩⟩
  refine (Session.elaborateAllBy_alike entered run.spelled inOrder finished).imp ?_
  intro result result' agree
  refine ⟨agree.answer, agree.alike, ?_⟩
  exact agree.alike.entities.imp fun _ _ each => each.shown agree.alike.grows agree.alike.grows'

end Runs

namespace Sample

/-- Two modules whose companions are new. -/
def pair : List Module := [twoWay .bit, ⟨⟨2⟩, [⟨⟨0⟩, .inout, .bit, none, .dummy⟩], .dummy⟩]

theorem entered_pair : ∀ m ∈ pair, m.Entered table := by
  intro m member
  rcases List.mem_cons.mp member with rfl | member
  · exact entered_twoWay .bit
  · rw [List.mem_singleton.mp member]
    refine ⟨(by decide : Names.Holds table ⟨2⟩), fun port member => ?_⟩
    rw [List.mem_singleton.mp member]
    exact (by decide : Names.Holds table ⟨0⟩)

theorem readable_pair : ∀ m ∈ pair, m.Readable := by
  intro m member port listed output
  rcases List.mem_cons.mp member with rfl | member
  · exact readable_twoWay .bit port listed output
  · rw [List.mem_singleton.mp member] at listed
    rw [List.mem_singleton.mp listed] at output
    cases output

/-- The second module is always a turn ahead, so that its companion is entered first. -/
theorem turns_pair :
    ((Session.start {} table).elaborateAllBy [1, 0, 1, 0, 1, 0] pair).isSome = true := by
  decide +kernel

end Sample

/-- Two builds take turns, the second module first. -/
theorem Run.schedule_irrelevant_pair :
    ∃ result outcomes after,
      (Session.start {} Sample.table).elaborateAllBy [1, 0, 1, 0, 1, 0] Sample.pair = some result ∧
      (Session.start {} Sample.table).elaborateAll Sample.pair = .ok (outcomes, after) ∧
      Checked.Related (Session.SameUpToKeys Sample.table)
        ((Session.start {} Sample.table).elaborateAll Sample.pair) result := by
  obtain ⟨result, finished⟩ := Option.isSome_iff_exists.mp Sample.turns_pair
  have run : Run {} Sample.table {} (.start {} Sample.table) := .start
  obtain ⟨related, ok⟩ := run.schedule_irrelevant Sample.entered_pair finished
  obtain ⟨outcomes, after, done⟩ := ok Sample.readable_pair
  exact ⟨result, outcomes, after, finished, done, related⟩

end HdlPorts
