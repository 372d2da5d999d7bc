import HdlPorts.Proofs.Histories
import Mathlib.Tactic.Tauto

/-! The cache of a session is up to date.

A current entity may have been built long ago, from a table with fewer names. It is still what its
module builds to now: a module that was declared as the one it came from needs no second build. The
only assumption is that the digest tells declarations of one name apart.
-/

set_option autoImplicit false

namespace HdlPorts

/-- No two different modules of the list have the same name and the same digest. -/
def Distinguished (modules : List Module) : Prop :=
  ∀ m ∈ modules, ∀ other ∈ modules, m.name = other.name → m.digest = other.digest → m = other

namespace Distinguished

variable {modules smaller : List Module}

theorem mono (distinguished : Distinguished modules)
    (subset : ∀ m ∈ smaller, m ∈ modules) : Distinguished smaller := by
  intro m member other member'
  exact distinguished m (subset m member) other (subset other member')

/-- One of the modules that come next, together with those that came before. -/
theorem with_one {past next : List Module} {m : Module}
    (distinguished : Distinguished (past ++ next)) (member : m ∈ next) :
    Distinguished (m :: past) := by
  refine distinguished.mono ?_
  intro other member'
  rcases List.mem_cons.mp member' with rfl | old
  · exact List.mem_append_right _ member
  · exact List.mem_append_left _ old

theorem of_nodup (nodup : (modules.map fun m => (m.name, m.digest)).Nodup) :
    Distinguished modules := by
  intro m member other member' name digest
  exact List.inj_on_of_nodup_map nodup member member' (Prod.ext name digest)

end Distinguished

namespace Session

variable {session middle after : Session} {past : History} {m : Module} {outcome : Outcome}

/-- What an outcome says: the entity behind an identifier, or the rejection. -/
def resolve? (session : Session) : Outcome → Option (Except Rejection Entity)
  | .ok id => (session.get? id).map .ok
  | .error rejection => some (.error rejection)

/-- The outcome says what the module builds to, now and in every later table. -/
def Reports (session : Session) (m : Module) (outcome : Outcome) : Prop :=
  ∃ result, session.resolve? outcome = some result ∧
    m.Settled session.settings session.names result

theorem Step.resolve? {result : Except Rejection Entity} {earlier : Outcome}
    (step : session.Step m outcome after) (found : session.resolve? earlier = some result) :
    after.resolve? earlier = some result := by
  cases earlier with
  | error rejection => exact found
  | ok id =>
    obtain ⟨entity, stored, rfl⟩ := Option.map_eq_some_iff.mp found
    exact Option.map_eq_some_iff.mpr ⟨entity, step.get? stored, rfl⟩

theorem Reports.step {earlier : Module} {reported : Outcome}
    (reports : session.Reports earlier reported) (step : session.Step m outcome after) :
    after.Reports earlier reported := by
  obtain ⟨result, found, settled⟩ := reports
  refine ⟨result, step.resolve? found, ?_⟩
  rw [step.settings]
  exact settled.grows step.grows

theorem Reports.steps {earlier : Module} {reported : Outcome} {modules : List Module}
    {outcomes : List Outcome} (reports : session.Reports earlier reported)
    (steps : session.Steps modules outcomes after) : after.Reports earlier reported := by
  induction steps with
  | nil => exact reports
  | cons step _ ih => exact ih (reports.step step)

/-- Every current entity is what one of the modules of that name builds to. -/
def UpToDate (past : History) (session : Session) : Prop :=
  ∀ name id, session.currentOf? name = some id →
    ∃ m ∈ past.modules, m.name = name ∧ session.Reports m (.ok id)

theorem mem_modules_add {subject : Module} {elaboration : Elaboration} :
    subject ∈ (past.add elaboration).modules ↔
      subject ∈ past.modules ∨ subject = elaboration.subject := by
  simp [History.modules, History.add, or_comm, eq_comm]

theorem UpToDate.step (upToDate : session.UpToDate past) (step : session.Step m outcome after) :
    after.UpToDate (past.add (.record after m outcome)) := by
  -- What was current before is reported still; only the name of the module may have changed.
  have older : ∀ name id, session.currentOf? name = some id →
      ∃ subject ∈ (past.add (.record after m outcome)).modules,
        subject.name = name ∧ after.Reports subject (.ok id) := by
    intro name id here
    obtain ⟨subject, member, named, reports⟩ := upToDate name id here
    exact ⟨subject, mem_modules_add.mpr (.inl member), named, reports.step step⟩
  intro name id here
  cases step with
  | again _ => exact older name id here
  | @stored entity names _ _ settled =>
    rw [currentOf?_store] at here
    split at here
    · next same =>
      cases here
      refine ⟨m, mem_modules_add.mpr (.inr rfl), same.symm, .ok entity, ?_, settled⟩
      exact Option.map_eq_some_iff.mpr ⟨entity, get?_store_new _ _ _, rfl⟩
    · exact older name id here
  | rejected _ _ _ =>
    rw [currentOf?_reject] at here
    split at here
    · cases here
    · exact older name id here

/-- A module that is cached is the one that its current entity was built from. -/
theorem UpToDate.reports_of_cached (upToDate : session.UpToDate past)
    (distinguished : Distinguished (m :: past.modules)) {id : EntityId}
    (hit : session.cached? m.name m.digest = some id) : session.Reports m (.ok id) := by
  obtain ⟨here, entity, stored, digest⟩ := cached?_eq_some.mp hit
  obtain ⟨subject, member, named, result, found, settled⟩ := upToDate m.name id here
  obtain ⟨_, again, rfl⟩ := Option.map_eq_some_iff.mp found
  cases again.symm.trans stored
  -- The entity carries the digest of the module it was built from, and so that of this one.
  have same : subject = m :=
    distinguished subject (List.mem_cons_of_mem _ member) m List.mem_cons_self named
      (settled.head.2.symm.trans digest)
  subst same
  exact ⟨.ok entity, found, settled⟩

theorem UpToDate.reports (upToDate : session.UpToDate past)
    (distinguished : Distinguished (m :: past.modules)) (step : session.Step m outcome after) :
    after.Reports m outcome := by
  cases step with
  | again hit => exact upToDate.reports_of_cached distinguished hit
  | @stored entity _ _ _ settled =>
    exact ⟨.ok entity, Option.map_eq_some_iff.mpr ⟨entity, get?_store_new _ _ _, rfl⟩, settled⟩
  | @rejected rejection _ _ _ settled => exact ⟨.error rejection, rfl, settled⟩

theorem UpToDate.reports_all {modules : List Module} {outcomes : List Outcome}
    (upToDate : session.UpToDate past) (distinguished : Distinguished (past.modules ++ modules))
    (steps : session.Steps modules outcomes after) :
    List.Forall₂ after.Reports modules outcomes := by
  induction steps generalizing past with
  | nil => exact .nil
  | @cons session middle after m outcome rest outcomes step others ih =>
    have first := distinguished.with_one List.mem_cons_self
    have later : Distinguished ((past.add (.record middle m outcome)).modules ++ rest) :=
      distinguished.mono fun subject member => by
        rcases List.mem_append.mp member with known | new
        · rcases mem_modules_add.mp known with old | rfl
          · exact List.mem_append_left _ old
          · exact List.mem_append_right _ List.mem_cons_self
        · exact List.mem_append_right _ (List.mem_cons_of_mem _ new)
    -- The steps that follow change nothing in what the first module reports.
    exact .cons ((upToDate.reports first step).steps others) (ih (upToDate.step step) later)

theorem UpToDate.later {names : Names} (upToDate : session.UpToDate past)
    (grows : session.names.Grows names) : UpToDate past { session with names } := by
  intro name id here
  obtain ⟨m, member, named, result, found, settled⟩ := upToDate name id here
  exact ⟨m, member, named, result, found, settled.grows grows⟩

theorem UpToDate.resolves (upToDate : session.UpToDate past) : session.Resolves := by
  intro name id here
  obtain ⟨m, _, named, result, found, settled⟩ := upToDate name id here
  obtain ⟨entity, stored, rfl⟩ := Option.map_eq_some_iff.mp found
  exact ⟨entity, stored, settled.head.1.trans named⟩

/-- Single elaborations meet no fault if the table has the names and the literals their words. -/
theorem elaborate_ok (entered : m.Entered session.names) (readable : m.Readable) :
    ∃ outcome after, session.elaborate m = .ok (outcome, after) := by
  cases hit : session.cached? m.name m.digest with
  | some id => exact ⟨_, _, elaborate_of_cached hit⟩
  | none =>
    cases built : m.build session.settings session.names with
    | mk attempt names =>
      have unbroken := Module.unbroken_build entered readable session.settings
      rw [built] at unbroken
      cases settle : attempt.settle with
      | error fault => exact absurd (Attempt.eq_broken settle) (unbroken fault)
      | ok result =>
        rw [Attempt.eq_ofResult settle] at built
        exact ⟨_, _, elaborate_of_built hit built⟩

/-- A fault of an elaboration is a fault of the build. -/
theorem broken_of_elaborate {fault : Fault} (broken : session.elaborate m = .error fault) :
    (m.build session.settings session.names).1 = .error (.broken fault) := by
  cases hit : session.cached? m.name m.digest with
  | some id =>
    rw [elaborate_of_cached hit] at broken
    cases broken
  | none =>
    cases built : m.build session.settings session.names with
    | mk attempt names =>
      cases settle : attempt.settle with
      | error other =>
        have here : (m.build session.settings session.names).1 = .error (.broken other) := by
          rw [built]
          exact Attempt.eq_broken settle
        rw [elaborate_of_broken hit here] at broken
        cases broken
        exact Attempt.eq_broken settle
      | ok result =>
        rw [Attempt.eq_ofResult settle] at built
        rw [elaborate_of_built hit built] at broken
        cases broken

end Session

/-! ## Runs -/

section Runs

variable {settings : Settings} {names : Names} {past : History} {session : Session}

theorem Run.settings_eq (run : Run settings names past session) : session.settings = settings := by
  apply run.preserve
  · rfl
  · intro past session names same _
    exact same
  · intro past session same
    exact same
  · intro past session m outcome after same step
    rw [step.settings, same]

theorem Run.grows (run : Run settings names past session) : names.Grows session.names := by
  apply run.preserve
  · exact .refl names
  · intro past session later grows more
    exact grows.trans more
  · intro past session grows
    exact grows
  · intro past session m outcome after grows step
    exact grows.trans step.grows

theorem Run.upToDate (run : Run settings names past session) : session.UpToDate past := by
  apply run.preserve
  · intro name id here
    cases here
  · intro past session names upToDate grows
    exact upToDate.later grows
  · intro past session upToDate
    exact upToDate
  · intro past session m outcome after upToDate step
    exact upToDate.step step

/-- Whatever an elaboration answers is what a build of the module gives after the call, the same
entity with the same keys or the same rejection. In a batch this holds of each module. -/
theorem Run.reports_fresh_build (run : Run settings names past session) (modules : List Module)
    (distinguished : Distinguished (past.modules ++ modules)) :
    (∀ m ∈ modules,
      (∀ outcome after, session.elaborate m = .ok (outcome, after) →
        after.settings = settings ∧ after.Reports m outcome) ∧
      (∀ fault, session.elaborate m = .error fault →
        (m.build settings session.names).1 = .error (.broken fault)) ∧
      (m.Entered session.names → m.Readable →
        ∃ outcome after, session.elaborate m = .ok (outcome, after))) ∧
    ∀ outcomes after, session.elaborateAll modules = .ok (outcomes, after) →
      after.settings = settings ∧ List.Forall₂ after.Reports modules outcomes := by
  have upToDate := run.upToDate
  refine ⟨?_, ?_⟩
  · intro m member
    refine ⟨?_, ?_, Session.elaborate_ok⟩
    · intro outcome after done
      have step := Session.step_of_elaborate done
      exact ⟨step.settings.trans run.settings_eq,
        upToDate.reports (distinguished.with_one member) step⟩
    · intro fault broken
      rw [← run.settings_eq]
      exact Session.broken_of_elaborate broken
  · intro outcomes after done
    obtain ⟨later, grows, steps⟩ := Session.steps_of_elaborateAll upToDate.resolves done
    exact ⟨steps.settings.trans run.settings_eq,
      (upToDate.later grows).reports_all distinguished steps⟩

end Runs

namespace Sample

theorem distinguished : Distinguished (batch ++ batch) := by
  have designs : Distinguished [twoWay .bit, twoWay .real, twoWay .byte, ⟨⟨2⟩, [], .dummy⟩] :=
    .of_nodup (by decide +kernel)
  refine designs.mono fun m member => ?_
  simp only [batch, List.mem_append, List.mem_cons, List.not_mem_nil, or_false] at member ⊢
  tauto

theorem entered_batch {names : Names} (grows : table.Grows names) :
    ∀ m ∈ batch, m.Entered names ∧ m.Readable := by
  intro m member
  simp only [batch, List.mem_cons, List.not_mem_nil, or_false] at member
  rcases member with rfl | rfl | rfl | rfl | rfl
  · exact ⟨(entered_twoWay .bit).grows grows, readable_twoWay .bit⟩
  · exact ⟨(entered_twoWay .real).grows grows, readable_twoWay .real⟩
  · exact ⟨(entered_twoWay .bit).grows grows, readable_twoWay .bit⟩
  · exact ⟨(entered_twoWay .byte).grows grows, readable_twoWay .byte⟩
  · exact ⟨⟨grows.holds (by decide), fun _ here => (by cases here)⟩, fun _ here => (by cases here)⟩

end Sample

/-- After the sample batch its modules are elaborated again, partly from the cache. -/
theorem Run.reports_fresh_build_sample :
    ∃ past session, Run {} Sample.table past session ∧
      ∀ m ∈ Sample.batch, ∃ outcome after, session.elaborate m = .ok (outcome, after) ∧
        after.Reports m outcome := by
  obtain ⟨drained, session, run⟩ := Sample.run
  refine ⟨_, session, run, ?_⟩
  intro m member
  obtain ⟨entered, readable⟩ := Sample.entered_batch run.grows m member
  obtain ⟨reports, _, ok⟩ :=
    (run.reports_fresh_build Sample.batch Sample.distinguished).1 m member
  obtain ⟨outcome, after, done⟩ := ok entered readable
  exact ⟨outcome, after, done, (reports outcome after done).2⟩

end HdlPorts
