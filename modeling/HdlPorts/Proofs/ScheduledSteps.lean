import HdlPorts.Proofs.Schedules
import HdlPorts.Proofs.Steps

/-! A batch whose builds take turns is made of steps.

A turn goes the same way in every later table unless it meets a fault. So a build that is under way
tells what a build from the beginning would end with, and once it has ended its result is settled, as
it is when the builds do not take turns. The second pass makes steps of settled results.
-/

set_option autoImplicit false

namespace HdlPorts

variable {settings : Settings} {names later : Names}

namespace Job

variable {job : Job} {m : Module} {digest : Digest}

/-- The build has ended in a fault. -/
def Broken (job : Job) : Prop := ∃ fault, job = .ended (.error (.broken fault))

/-- The turn goes the same way in a later table and enters nothing there. -/
theorem step_again (job : Job) (sound : ¬ (job.step settings names).1.Broken)
    (grows : (job.step settings names).2.Grows later) :
    job.step settings later = ((job.step settings names).1, later) := by
  cases job with
  | waiting m digest =>
    simp only [step] at sound grows ⊢
    cases text : names.text m.name with
    | error fault =>
      rw [text] at sound
      exact absurd ⟨fault, rfl⟩ sound
    | ok moduleName =>
      rw [text] at grows
      simp only [grows.text_ok text]
  | taking m moduleName progress ports =>
    cases ports with
    | nil =>
      have unbroken : (progress.finish moduleName m.span names).Unbroken :=
        fun fault same => sound ⟨fault, congrArg ended same⟩
      simp only [step, progress.finish_persists grows m.span unbroken]
    | cons port rest =>
      simp only [step] at sound grows ⊢
      cases taken : Progress.takePort settings moduleName progress port names with
      | mk result after =>
        rw [taken] at sound grows
        have unbroken : result.Unbroken := by
          rintro fault rfl
          exact sound ⟨fault, rfl⟩
        cases result with
        | error stop => simp only [Progress.takePort_again taken unbroken grows]
        | ok next => simp only [Progress.takePort_again taken unbroken grows]
  | ended result => rfl

/-- So the build ends in a later table as it would have without the turn. -/
theorem alone_later (job : Job) (sound : ¬ (job.step settings names).1.Broken)
    (grows : (job.step settings names).2.Grows later) :
    (job.step settings names).1.alone settings later = job.alone settings later := by
  have same : (job.step settings later).1.alone settings (job.step settings later).2 =
      job.alone settings later := job.alone_step later
  rwa [job.step_again sound grows] at same

/-- Unless it breaks, the build ends in any later table as it would from the beginning. -/
def Foretells (settings : Settings) (names : Names) (job : Job) (m : Module) (digest : Digest) :
    Prop :=
  ¬ job.Broken → ∀ later, names.Grows later →
    job.alone settings later = m.buildWith digest settings later

theorem Foretells.grows {after : Names} (foretells : job.Foretells settings names m digest)
    (grows : names.Grows after) : job.Foretells settings after m digest :=
  fun sound later more => foretells sound later (grows.trans more)

theorem foretells_waiting (settings : Settings) (names : Names) (m : Module) (digest : Digest) :
    (waiting m digest).Foretells settings names m digest :=
  fun _ _ _ => rfl

theorem Foretells.step (foretells : job.Foretells settings names m digest) :
    (job.step settings names).1.Foretells settings (job.step settings names).2 m digest := by
  intro sound later grows
  have before : ¬ job.Broken := by
    rintro ⟨fault, rfl⟩
    exact sound ⟨fault, rfl⟩
  rw [job.alone_later sound grows]
  exact foretells before later ((grows_step settings job names).trans grows)

end Job

namespace Session

variable {picked : List (Module × Option Digest)} {jobs : List (Option Job)}

/-- The build at a position foretells what the module there is built to, if that was picked. -/
inductive Foretold (settings : Settings) (names : Names) :
    Option Job → Module × Option Digest → Prop where
  | idle {m : Module} : Foretold settings names none (m, none)
  | busy {job : Job} {m : Module} {digest : Digest} : job.Foretells settings names m digest →
      Foretold settings names (some job) (m, some digest)

theorem Foretold.grows {job : Option Job} {pick : Module × Option Digest}
    (foretold : Foretold settings names job pick) (grows : names.Grows later) :
    Foretold settings later job pick := by
  cases foretold with
  | idle => exact .idle
  | busy foretells => exact .busy (foretells.grows grows)

theorem foretold_jobs (settings : Settings) (names : Names)
    (picked : List (Module × Option Digest)) :
    List.Forall₂ (Foretold settings names) (Session.jobs picked) picked := by
  unfold Session.jobs
  rw [List.forall₂_map_left_iff, List.forall₂_same]
  rintro ⟨m, digest⟩ _
  cases digest with
  | none => exact .idle
  | some digest => exact .busy (Job.foretells_waiting settings names m digest)

theorem keeps_foretold (settings : Settings) (names : Names)
    (picked : List (Module × Option Digest)) :
    Keeps settings picked (Foretold settings) names.Grows where
  waits _ _ _ _ := Foretold.grows
  moves := by
    rintro between job ⟨m, digest⟩ _ (_ | foretells) grows
    exact ⟨.busy foretells.step, grows.trans (job.grows_step settings between)⟩

/-- Builds that have all ended without a fault leave settled results. -/
theorem foreseen_of_ended {results : List (Option (Attempt Rejection Entity))}
    {built : List (Option (Except Rejection Entity))}
    (foretold : List.Forall₂ (Foretold settings names) jobs picked)
    (ended : ended? jobs = some results) (settled : settleAll results = .ok built) :
    List.Forall₂ (Foreseen settings names) built picked := by
  induction foretold generalizing results built with
  | nil =>
    cases ended
    cases settled
    exact .nil
  | @cons job pick jobs picked first _ ih =>
    cases first with
    | idle =>
      obtain ⟨others, endedRest, rfl⟩ := Option.map_eq_some_iff.mp ended
      obtain ⟨own, settledRest, same⟩ := ok_of_bind settled
      cases same
      exact .cons .skipped (ih endedRest settledRest)
    | @busy job m digest foretells =>
      cases job with
      | waiting _ _ => cases ended
      | taking _ _ _ _ => cases ended
      | ended attempt =>
        obtain ⟨others, endedRest, rfl⟩ := Option.map_eq_some_iff.mp ended
        obtain ⟨result, own, rest⟩ := ok_of_bind settled
        obtain ⟨built, settledRest, same⟩ := ok_of_bind rest
        cases same
        rw [Attempt.eq_ofResult own] at foretells
        have sound : ¬ (Job.ended (.ofResult result)).Broken := by
          rintro ⟨fault, same⟩
          exact Attempt.unbroken_ofResult result fault (Job.ended.inj same)
        exact .cons (.built fun later grows => (foretells sound later grows).symm)
          (ih endedRest settledRest)

/-- A batch whose builds have taken turns is steps in the table that they have left. -/
theorem steps_of_elaborateAllBy {session after : Session} {schedule : List Nat}
    {modules : List Module} {outcomes : List Outcome} (resolves : session.Resolves)
    (finished : session.elaborateAllBy schedule modules = some (.ok (outcomes, after))) :
    ∃ names, session.names.Grows names ∧
      ({ session with names } : Session).Steps modules outcomes after := by
  obtain ⟨results, ended, done⟩ := Option.map_eq_some_iff.mp finished
  obtain ⟨built, settled, done⟩ := ok_of_bind done
  obtain ⟨foretold, grows⟩ := (keeps_foretold _ session.names _).turns
    (foretold_jobs session.settings session.names (modules.zip (session.pick [] modules)))
    (.refl session.names) schedule
  exact ⟨_, grows, steps_of_passes (foreseen_of_ended foretold ended settled) resolves done⟩

end Session

end HdlPorts
