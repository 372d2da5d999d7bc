import HdlPorts.Proofs.Caching

/-! A batch is elaborated as if its modules came one by one.

The first pass builds modules in the table as it is then, before any of them changes the cache. The
second pass may drop or replace what the first one relied on, and builds again where it has to. The
proof follows the second pass and keeps three things: whatever is cached is covered by the first
pass, whatever is covered is settled, so that building it again enters nothing, and the tables of
both sides agree up to the names that the rest of the first pass enters.
-/

set_option autoImplicit false

namespace HdlPorts

namespace Session

variable {session middle after : Session} {m : Module} {outcome : Outcome}

/-- Elaborate modules one after another. -/
def elaborateEach (session : Session) : List Module → Checked (List Outcome × Session)
  | [] => .ok ([], session)
  | m :: rest => do
    let (outcome, session) ← session.elaborate m
    let (outcomes, session) ← session.elaborateEach rest
    return (outcome :: outcomes, session)

theorem adopt_later (session : Session) (name : Name) (result : Except Rejection Entity)
    (names : Names) :
    ({ session with names } : Session).adopt name result =
      ((session.adopt name result).1, { (session.adopt name result).2 with names }) := by
  cases result <;> rfl

/-- Elaborating a settled module takes the same step in every later table and enters nothing. -/
theorem elaborate_of_settled {result : Except Rejection Entity}
    (settled : m.Settled session.settings session.names result) :
    ∃ outcome after, session.elaborate m = .ok (outcome, after) ∧ after.names = session.names ∧
      ∀ names, session.names.Grows names →
        ({ session with names } : Session).elaborate m = .ok (outcome, { after with names }) := by
  cases hit : session.cached? m.name m.digest with
  | some id =>
    refine ⟨.ok id, session, elaborate_of_cached hit, rfl, ?_⟩
    intro names _
    have hit : ({ session with names } : Session).cached? m.name m.digest = some id := hit
    exact elaborate_of_cached hit
  | none =>
    refine ⟨(session.adopt m.name result).1, (session.adopt m.name result).2,
      elaborate_of_built hit (settled session.names (.refl session.names)),
      by cases result <;> rfl, ?_⟩
    intro names grows
    have miss : ({ session with names } : Session).cached? m.name m.digest = none := hit
    rw [elaborate_of_built miss (settled names grows)]
    exact congrArg _ (session.adopt_later m.name result names)

/-! ## Both passes as one recursion -/

section Passes

variable {start : Session} {seen : List (Name × Digest)} {modules rest : List Module}

/-- Both passes over the rest of a batch that began in `start`. -/
def passes (start : Session) (seen : List (Name × Digest)) (modules : List Module)
    (session : Session) : Checked (List Outcome × Session) := do
  let (built, names) ← buildPicked session.settings (modules.zip (start.pick seen modules))
    session.names
  ({ session with names } : Session).replay (modules.zip built)

theorem passes_covered (covered : start.Covered seen m)
    (settings : middle.settings = session.settings) (names : middle.names = session.names)
    (elaborated : ∀ names, session.names.Grows names →
      ({ session with names } : Session).elaborate m = .ok (outcome, { middle with names })) :
    passes start seen (m :: rest) session = (do
      let (outcomes, after) ← passes start seen rest middle
      return (outcome :: outcomes, after)) := by
  rw [passes, passes, settings, names, pick_covered covered rest, List.zip_cons_cons, buildPicked]
  simp only [bind, Except.bind]
  cases made : buildPicked session.settings (rest.zip (start.pick seen rest)) session.names with
  | error fault => rfl
  | ok pair =>
    -- In the batch the other builds come first. They grow the table and change nothing here.
    obtain ⟨built, names⟩ := pair
    simp only [pure, Except.pure, List.zip_cons_cons, replay, elaborateBuilt, bind, Except.bind,
      elaborated names (grows_buildPicked made), settings]

theorem passes_uncovered {result : Except Rejection Entity} {names : Names}
    (uncovered : ¬ start.Covered seen m)
    (built : m.build session.settings session.names = (.ofResult result, names))
    (adopted : ({ session with names } : Session).adopt m.name result = (outcome, middle)) :
    passes start seen (m :: rest) session = (do
      let (outcomes, after) ← passes start ((m.name, m.digest) :: seen) rest middle
      return (outcome :: outcomes, after)) := by
  have built : m.buildWith m.digest session.settings session.names = (.ofResult result, names) :=
    built
  have settings : middle.settings = session.settings := by
    cases result <;> cases adopted <;> rfl
  have names' : middle.names = names := by
    cases result <;> cases adopted <;> rfl
  rw [passes, passes, settings, names', pick_uncovered uncovered rest, List.zip_cons_cons,
    buildPicked]
  simp only [bind, Except.bind, built, Attempt.settle_ofResult]
  cases made : buildPicked session.settings
      (rest.zip (start.pick ((m.name, m.digest) :: seen) rest)) names with
  | error fault => rfl
  | ok pair =>
    obtain ⟨others, last⟩ := pair
    have later := ({ session with names } : Session).adopt_later m.name result last
    rw [adopted] at later
    simp only [pure, Except.pure, List.zip_cons_cons, replay, elaborateBuilt_some, bind,
      Except.bind, later, settings]

theorem passes_broken {fault : Fault} (uncovered : ¬ start.Covered seen m)
    (broken : (m.build session.settings session.names).1 = .error (.broken fault)) :
    passes start seen (m :: rest) session = .error fault := by
  have broken : (m.buildWith m.digest session.settings session.names).1 =
      .error (.broken fault) := broken
  rw [passes, pick_uncovered uncovered rest, List.zip_cons_cons, buildPicked]
  simp only [bind, Except.bind, broken, Attempt.settle]

/-- The modules that the first pass covers are settled. -/
def Known (start : Session) (seen : List (Name × Digest)) (modules : List Module)
    (session : Session) : Prop :=
  ∀ m ∈ modules, start.Covered seen m → ∃ result, m.Settled session.settings session.names result

theorem Known.step (known : Known start seen (m :: rest) session)
    (step : session.Step m outcome after) : Known start seen rest after := by
  intro other member covered
  obtain ⟨result, settled⟩ := known other (List.mem_cons_of_mem _ member) covered
  rw [step.settings]
  exact ⟨result, settled.grows step.grows⟩

/-- A module that was just built is known from now on, under whatever position it comes again. -/
theorem Known.more {result : Except Rejection Entity} (known : Known start seen rest session)
    (distinguished : Distinguished (m :: rest))
    (settled : m.Settled session.settings session.names result) :
    Known start ((m.name, m.digest) :: seen) rest session := by
  intro other member covered
  rcases covered with cached | listed
  · exact known other member (.inl cached)
  · rcases List.mem_cons.mp listed with same | earlier
    · have same : other = m := distinguished other (List.mem_cons_of_mem _ member) m
        List.mem_cons_self (congrArg Prod.fst same) (congrArg Prod.snd same)
      rw [same]
      exact ⟨result, settled⟩
    · exact known other member (.inr earlier)

/-- Wherever the first pass accounts for the cache, both passes over the rest of the batch do what
single elaborations do. -/
theorem elaborateEach_eq_passes (accounted : start.Accounted seen session)
    (resolves : session.Resolves) (distinguished : Distinguished modules)
    (known : Known start seen modules session) :
    session.elaborateEach modules = passes start seen modules session := by
  induction modules generalizing seen session with
  | nil => rfl
  | cons m rest ih =>
    have distinguished' : Distinguished rest :=
      distinguished.mono fun _ member => List.mem_cons_of_mem _ member
    rw [elaborateEach]
    by_cases covered : start.Covered seen m
    · -- The step enters no name, so it commutes with the builds of the first pass.
      obtain ⟨result, settled⟩ := known m List.mem_cons_self covered
      obtain ⟨outcome, middle, here, same, elaborated⟩ := elaborate_of_settled settled
      have step := step_of_elaborate here
      rw [here, passes_covered covered step.settings same elaborated, ← ih
        (accounted.step resolves step covered) (step.resolves resolves) distinguished'
        (known.step step)]
      rfl
    · -- The cache has no use for this module, so both sides build it, and in the same table.
      have miss := accounted.miss covered
      cases built : m.build session.settings session.names with
      | mk attempt names =>
        cases settle : attempt.settle with
        | error fault =>
          have broken : (m.build session.settings session.names).1 = .error (.broken fault) := by
            rw [built]
            exact Attempt.eq_broken settle
          rw [elaborate_of_broken miss broken, passes_broken covered broken]
          rfl
        | ok result =>
          rw [Attempt.eq_ofResult settle] at built
          have here := elaborate_of_built miss built
          cases adopted : ({ session with names } : Session).adopt m.name result with
          | mk outcome middle =>
            rw [adopted] at here
            have step := step_of_elaborate here
            have settled : m.Settled middle.settings middle.names result := by
              have settled := Module.settled_of_build built
              cases result <;> cases adopted <;> exact settled
            rw [here, passes_uncovered covered built adopted, ← ih
              ((accounted.more _).step resolves step (.inr List.mem_cons_self))
              (step.resolves resolves) distinguished'
              ((known.step step).more distinguished settled)]
            rfl

end Passes

theorem elaborateEach_ok {modules : List Module}
    (sound : ∀ m ∈ modules, m.Entered session.names ∧ m.Readable) :
    ∃ outcomes after, session.elaborateEach modules = .ok (outcomes, after) := by
  induction modules generalizing session with
  | nil => exact ⟨[], session, rfl⟩
  | cons m rest ih =>
    obtain ⟨entered, readable⟩ := sound m List.mem_cons_self
    obtain ⟨outcome, middle, first⟩ := elaborate_ok entered readable
    have grows := (step_of_elaborate first).grows
    obtain ⟨outcomes, after, others⟩ := ih fun other member =>
      ⟨(sound other (List.mem_cons_of_mem _ member)).1.grows grows,
        (sound other (List.mem_cons_of_mem _ member)).2⟩
    refine ⟨outcome :: outcomes, after, ?_⟩
    rw [elaborateEach, first]
    simp only [bind, Except.bind, others]
    rfl

theorem elaborateAll_eq_each {past : History} {modules : List Module}
    (upToDate : session.UpToDate past) (distinguished : Distinguished (past.modules ++ modules)) :
    session.elaborateAll modules = session.elaborateEach modules := by
  have accounted : session.Accounted [] session :=
    fun _ _ _ hit => .inl (Option.isSome_of_eq_some hit)
  have declared : Distinguished modules :=
    distinguished.mono fun _ member => List.mem_append_right _ member
  have known : Known session [] modules session := by
    intro m member covered
    -- Before the batch only the cache covers anything, and what it has is up to date.
    rcases covered with cached | impossible
    · obtain ⟨id, hit⟩ := Option.isSome_iff_exists.mp cached
      obtain ⟨result, _, settled⟩ := upToDate.reports_of_cached (distinguished.with_one member) hit
      exact ⟨result, settled⟩
    · cases impossible
  exact (elaborateEach_eq_passes accounted upToDate.resolves declared known).symm

end Session

section Runs

variable {settings : Settings} {names : Names} {past : History} {session : Session}

/-- A batch ends as the single elaborations of its modules in order: in the same outcomes and the
same session, table and log included, or in the same fault. It meets no fault if the table has the
names and the literals have their words. -/
theorem Run.batch_eq_each (run : Run settings names past session) (modules : List Module)
    (distinguished : Distinguished (past.modules ++ modules)) :
    session.elaborateAll modules = session.elaborateEach modules ∧
      ((∀ m ∈ modules, m.Entered session.names ∧ m.Readable) →
        ∃ outcomes after, session.elaborateAll modules = .ok (outcomes, after)) := by
  have same := Session.elaborateAll_eq_each run.upToDate distinguished
  refine ⟨same, ?_⟩
  intro sound
  rw [same]
  exact Session.elaborateEach_ok sound

/-- The sample batch a second time, in a session that has part of it in its cache. -/
theorem Run.batch_eq_each_sample :
    ∃ past session, Run {} Sample.table past session ∧
      ∃ outcomes after, session.elaborateAll Sample.batch = .ok (outcomes, after) ∧
        session.elaborateEach Sample.batch = .ok (outcomes, after) := by
  obtain ⟨drained, session, run⟩ := Sample.run
  obtain ⟨same, ok⟩ := run.batch_eq_each Sample.batch Sample.distinguished
  obtain ⟨outcomes, after, done⟩ := ok (Sample.entered_batch run.grows)
  exact ⟨_, session, run, outcomes, after, done, same.symm.trans done⟩

end Runs

end HdlPorts
