import HdlPorts.Proofs.Renaming
import HdlPorts.Proofs.Sessions
import HdlPorts.Session.Schedule

/-! Builds that take turns.

Each of the builds that take turns is followed by the same build left to itself in the table from
before the batch. Turn by turn both are alike and enter the same texts. So whatever the schedule
was, a build ends as it does alone, and the table has what the builds enter alone.
-/

set_option autoImplicit false

namespace HdlPorts

variable {base names others after later : Names} {settings : Settings}

namespace Job

/-- What the build ends with if nothing else has a turn any more, and the table it leaves. -/
def alone (settings : Settings) (names : Names) : Job → Attempt Rejection Entity × Names
  | waiting m digest => m.buildWith digest settings names
  | taking m moduleName progress ports =>
    match Progress.takePorts settings moduleName progress ports names with
    | (.error stop, names) => (.error stop, names)
    | (.ok progress, names) => (progress.finish moduleName m.span names, names)
  | ended result => (result, names)

/-- A turn brings the build nearer to the same end. -/
theorem alone_step (job : Job) (names : Names) :
    (job.step settings names).1.alone settings (job.step settings names).2 =
      job.alone settings names := by
  cases job with
  | waiting m digest =>
    rw [step, alone, Module.buildWith]
    cases names.text m.name <;> rfl
  | taking m moduleName progress ports =>
    cases ports with
    | nil => rfl
    | cons port rest =>
      rw [step, alone, Progress.takePorts]
      cases Progress.takePort settings moduleName progress port names with
      | mk result after => cases result <;> rfl
  | ended result => rfl

theorem grows_step (settings : Settings) (job : Job) (names : Names) :
    names.Grows (job.step settings names).2 := by
  cases job with
  | waiting m digest =>
    rw [step]
    cases names.text m.name <;> exact .refl names
  | taking m moduleName progress ports =>
    cases ports with
    | nil => exact .refl names
    | cons port rest =>
      have grows := Progress.grows_takePort settings moduleName progress port names
      rw [step]
      split
      · next taken => rwa [taken] at grows
      · next taken => rwa [taken] at grows
  | ended result => exact .refl names

theorem grows_alone (settings : Settings) (job : Job) (names : Names) :
    names.Grows (job.alone settings names).2 := by
  cases job with
  | waiting m digest => exact m.grows_buildWith digest settings names
  | taking m moduleName progress ports =>
    have grows := Progress.grows_takePorts settings moduleName progress ports names
    rw [alone]
    split
    · next taken => rwa [taken] at grows
    · next taken => rwa [taken] at grows
  | ended result => exact .refl names

/-- The builds have come equally far, with progress that is alike. The names they have yet to read
are in the table from before. -/
inductive Alike (base names others : Names) : Job → Job → Prop where
  | waiting {m : Module} {digest : Digest} : m.Entered base →
      Alike base names others (.waiting m digest) (.waiting m digest)
  | taking {m : Module} {moduleName : String} {progress other : Progress} {ports : List Port} :
      (∀ port ∈ ports, base.Holds port.name) → progress.Consistent → other.Consistent →
      progress.Alike names others other →
      Alike base names others (.taking m moduleName progress ports)
        (.taking m moduleName other ports)
  | ended {result result' : Attempt Rejection Entity} :
      Attempt.Alike Entity.Alike names others result result' →
      Alike base names others (.ended result) (.ended result')

theorem step_inStep (settings : Settings) {job other : Job} (grows : base.Grows names)
    (grows' : base.Grows others) (alike : job.Alike base names others other) :
    names.InStep others (Alike base) (job.step settings names) (other.step settings others) := by
  cases alike with
  | @waiting m digest entered =>
    have text := Names.text_label entered.name
    rw [step, step, grows.text_ok text, grows'.text_ok text]
    exact ⟨[], .refl names, .refl others, .taking entered.ports
      (Progress.consistent_start m digest) (Progress.consistent_start m digest)
      (Progress.alike_start entered digest grows grows')⟩
  | @taking m moduleName progress other ports holds consistent consistent' alike =>
    cases ports with
    | nil =>
      -- The last check compares keys, but it passes on both sides.
      rw [step, step, consistent.finish, consistent'.finish]
      exact ⟨[], .refl names, .refl others, .ended (.ok alike.entity)⟩
    | cons port rest =>
      obtain ⟨more, gains, gains', related⟩ := Progress.takePort_inStep settings moduleName
        (holds port List.mem_cons_self) grows grows' alike
      have further : ∀ next after, Progress.takePort settings moduleName progress port names =
          (.ok next, after) → next.Consistent := fun _ _ => consistent.takePort
      have further' : ∀ next after, Progress.takePort settings moduleName other port others =
          (.ok next, after) → next.Consistent := fun _ _ => consistent'.takePort
      rw [step, step]
      generalize Progress.takePort settings moduleName progress port names = first
        at gains related further ⊢
      generalize Progress.takePort settings moduleName other port others = first'
        at gains' related further' ⊢
      obtain ⟨result, after⟩ := first
      obtain ⟨result', later⟩ := first'
      have related : Attempt.Related (Progress.Alike after later) Eq result result' := related
      cases related with
      | ok alike =>
        exact ⟨more, gains, gains', .taking
          (fun other member => holds other (List.mem_cons_of_mem _ member))
          (further _ _ rfl) (further' _ _ rfl) alike⟩
      | refused same => exact ⟨more, gains, gains', .ended (.refused same)⟩
      | broken => exact ⟨more, gains, gains', .ended .broken⟩
  | ended related => exact ⟨[], .refl names, .refl others, .ended related⟩

theorem Alike.grows {job other : Job} (alike : job.Alike base names others other)
    (grows : names.Grows after) (grows' : others.Grows later) : job.Alike base after later other := by
  cases alike with
  | waiting entered => exact .waiting entered
  | taking holds consistent consistent' alike =>
    exact .taking holds consistent consistent' (alike.grows grows grows')
  | ended related =>
    refine .ended ?_
    cases related with
    | ok alike => exact .ok (alike.grows grows grows')
    | refused same => exact .refused same
    | broken => exact .broken

/-- The build has come as far as it would have in the table from before, left to itself. Whatever it
would have entered has been entered. -/
def Follows (settings : Settings) (base names : Names) (job : Job) (m : Module) (digest : Digest) :
    Prop :=
  ∃ other table, base.Grows table ∧ job.Alike base names table other ∧
    other.alone settings table = m.buildWith digest settings base ∧
    ∀ text ∈ table.texts, text ∈ names.texts

variable {m : Module} {digest : Digest} {job : Job}

theorem Follows.grows (follows : job.Follows settings base names m digest)
    (grows : names.Grows after) : job.Follows settings base after m digest := by
  obtain ⟨other, table, whole, alike, same, texts⟩ := follows
  exact ⟨other, table, whole, alike.grows grows (.refl table), same,
    fun text member => grows.subset (texts text member)⟩

theorem follows_waiting (entered : m.Entered base) (digest : Digest) :
    (waiting m digest).Follows settings base base m digest :=
  ⟨waiting m digest, base, .refl base, .waiting entered, rfl, fun _ member => member⟩

/-- After a turn the build still follows the other one, which has had a turn as well. -/
theorem Follows.step (follows : job.Follows settings base names m digest)
    (grows : base.Grows names) :
    names.Grows (job.step settings names).2 ∧
      (job.step settings names).1.Follows settings base (job.step settings names).2 m digest ∧
      ∀ text ∈ (job.step settings names).2.texts,
        text ∈ names.texts ∨ text ∈ (m.buildWith digest settings base).2.texts := by
  obtain ⟨other, table, whole, alike, same, texts⟩ := follows
  obtain ⟨more, gains, gains', alike⟩ := step_inStep settings grows whole alike
  have same := (alone_step other table).trans same
  refine ⟨gains.grows, ⟨_, _, whole.trans gains'.grows, alike, same, ?_⟩, ?_⟩
  · intro text member
    rw [gains.texts]
    exact ((gains'.texts text).mp member).imp_left (texts text)
  · intro text member
    refine ((gains.texts text).mp member).imp_right fun new => ?_
    -- The other build enters the text as well, and keeps it to its end.
    have here := (gains'.texts text).mpr (.inr new)
    have later := (grows_alone settings (other.step settings table).1
      (other.step settings table).2).subset here
    rwa [same] at later

end Job

namespace Session

/-! ## Taking turns -/

variable {picked : List (Module × Option Digest)} {jobs : List (Option Job)}

/-- Each build keeps the property while it waits in a table that grows, and through a turn of its own
as long as the other property, which a turn leaves true, holds of the table. -/
structure Keeps (settings : Settings) (picked : List (Module × Option Digest))
    (Kept : Names → Option Job → Module × Option Digest → Prop) (Told : Names → Prop) : Prop where
  waits : ∀ names after job pick, Kept names job pick → names.Grows after → Kept after job pick
  moves : ∀ names job, ∀ pick ∈ picked, Kept names (some job) pick → Told names →
    Kept (job.step settings names).2 (some (job.step settings names).1) pick ∧
      Told (job.step settings names).2

section Keeping

variable {Kept : Names → Option Job → Module × Option Digest → Prop} {Told : Names → Prop}

theorem Keeps.turn (keeps : Keeps settings picked Kept Told)
    (kept : List.Forall₂ (Kept names) jobs picked) (told : Told names) (position : Nat) :
    names.Grows (turn settings names position jobs).2 ∧
      List.Forall₂ (Kept (turn settings names position jobs).2)
        (turn settings names position jobs).1 picked ∧
      Told (turn settings names position jobs).2 := by
  obtain ⟨waits, moves⟩ := keeps
  -- The position counts down along the list; the builds that are passed over wait in a larger table.
  induction kept generalizing position with
  | nil =>
    rw [Session.turn]
    exact ⟨.refl names, .nil, told⟩
  | @cons job pick jobs picked first rest ih =>
    cases position with
    | zero =>
      cases job with
      | none => exact ⟨.refl names, .cons first rest, told⟩
      | some job =>
        have further := job.grows_step settings names
        obtain ⟨own, told⟩ := moves names job pick List.mem_cons_self first told
        exact ⟨further, .cons own (rest.imp fun _ _ other => waits _ _ _ _ other further), told⟩
    | succ position =>
      obtain ⟨further, others, told⟩ :=
        ih position fun names job pick listed => moves names job pick (List.mem_cons_of_mem _ listed)
      rw [Session.turn]
      exact ⟨further, .cons (waits _ _ _ _ first further) others, told⟩

theorem Keeps.turns (keeps : Keeps settings picked Kept Told)
    (kept : List.Forall₂ (Kept names) jobs picked) (told : Told names) (schedule : List Nat) :
    List.Forall₂ (Kept (turns settings schedule jobs names).2)
        (turns settings schedule jobs names).1 picked ∧
      Told (turns settings schedule jobs names).2 := by
  induction schedule generalizing jobs names with
  | nil => exact ⟨kept, told⟩
  | cons position schedule ih =>
    obtain ⟨_, kept, told⟩ := keeps.turn kept told position
    exact ih kept told

end Keeping

/-- The build at a position is that of the module there, and has one if the module was picked. -/
inductive Assigned (settings : Settings) (base names : Names) :
    Option Job → Module × Option Digest → Prop where
  | idle {m : Module} : Assigned settings base names none (m, none)
  | busy {job : Job} {m : Module} {digest : Digest} : job.Follows settings base names m digest →
      Assigned settings base names (some job) (m, some digest)

/-- The text is there before, or one of the builds enters it when left to itself. -/
def Accounts (settings : Settings) (base : Names) (picked : List (Module × Option Digest))
    (text : String) : Prop :=
  text ∈ base.texts ∨
    ∃ m digest, (m, some digest) ∈ picked ∧ text ∈ (m.buildWith digest settings base).2.texts

/-- Builds that have taken turns since the table was `base`. -/
structure Underway (settings : Settings) (base : Names) (picked : List (Module × Option Digest))
    (jobs : List (Option Job)) (names : Names) : Prop where
  grows : base.Grows names
  assigned : List.Forall₂ (Assigned settings base names) jobs picked
  texts : ∀ text ∈ names.texts, Accounts settings base picked text

theorem Assigned.grows {job : Option Job} {pick : Module × Option Digest}
    (assigned : Assigned settings base names job pick) (grows : names.Grows after) :
    Assigned settings base after job pick := by
  cases assigned with
  | idle => exact .idle
  | busy follows => exact .busy (follows.grows grows)

theorem keeps_assigned (settings : Settings) (base : Names)
    (picked : List (Module × Option Digest)) :
    Keeps settings picked (Assigned settings base) fun names =>
      base.Grows names ∧ ∀ text ∈ names.texts, Accounts settings base picked text where
  waits _ _ _ _ := Assigned.grows
  moves := by
    rintro names job ⟨m, digest⟩ listed (_ | follows) ⟨grows, texts⟩
    obtain ⟨further, follows, new⟩ := follows.step grows
    refine ⟨.busy follows, grows.trans further, ?_⟩
    intro text member
    exact (new text member).elim (texts text) fun own => .inr ⟨m, _, listed, own⟩

theorem Underway.turns (underway : Underway settings base picked jobs names)
    (schedule : List Nat) :
    Underway settings base picked (turns settings schedule jobs names).1
      (turns settings schedule jobs names).2 := by
  obtain ⟨assigned, grows, texts⟩ := (keeps_assigned settings base picked).turns underway.assigned
    ⟨underway.grows, underway.texts⟩ schedule
  exact ⟨grows, assigned, texts⟩

theorem underway_jobs (entered : ∀ m digest, (m, some digest) ∈ picked → m.Entered base) :
    Underway settings base picked (Session.jobs picked) base := by
  refine ⟨.refl base, ?_, fun _ member => .inl member⟩
  unfold Session.jobs
  rw [List.forall₂_map_left_iff, List.forall₂_same]
  rintro ⟨m, digest⟩ member
  cases digest with
  | none => exact .idle
  | some digest => exact .busy (Job.follows_waiting (entered m digest member) digest)

/-! ## What the builds end with -/

/-- The result is that of the build left to itself, up to keys, and the texts that this one enters
have been entered. -/
inductive Delivered (settings : Settings) (base names : Names) :
    Option (Attempt Rejection Entity) → Module × Option Digest → Prop where
  | idle {m : Module} : Delivered settings base names none (m, none)
  | built {result : Attempt Rejection Entity} {m : Module} {digest : Digest} :
      Attempt.Alike Entity.Alike names (m.buildWith digest settings base).2 result
        (m.buildWith digest settings base).1 →
      (∀ text ∈ (m.buildWith digest settings base).2.texts, text ∈ names.texts) →
      Delivered settings base names (some result) (m, some digest)

theorem delivered_of_ended {results : List (Option (Attempt Rejection Entity))}
    (assigned : List.Forall₂ (Assigned settings base names) jobs picked)
    (ended : ended? jobs = some results) :
    List.Forall₂ (Delivered settings base names) results picked := by
  induction assigned generalizing results with
  | nil =>
    cases ended
    exact .nil
  | @cons job pick jobs picked first _ ih =>
    cases first with
    | idle =>
      obtain ⟨others, endedRest, rfl⟩ := Option.map_eq_some_iff.mp ended
      exact .cons .idle (ih endedRest)
    | @busy job m digest follows =>
      obtain ⟨other, table, _, alike, same, texts⟩ := follows
      cases alike with
      | waiting _ => cases ended
      | taking _ _ _ _ => cases ended
      | @ended result result' related =>
        obtain ⟨others, endedRest, rfl⟩ := Option.map_eq_some_iff.mp ended
        have same : (result', table) = m.buildWith digest settings base := same
        refine .cons (.built ?_ ?_) (ih endedRest)
        · rw [← same]
          exact related
        · rw [← same]
          exact texts

/-- A schedule has come to its end. -/
structure Finished (settings : Settings) (base : Names) (picked : List (Module × Option Digest))
    (results : List (Option (Attempt Rejection Entity))) (names : Names) : Prop where
  grows : base.Grows names
  delivered : List.Forall₂ (Delivered settings base names) results picked
  texts : ∀ text ∈ names.texts, Accounts settings base picked text

theorem Underway.finished (underway : Underway settings base picked jobs names)
    {results : List (Option (Attempt Rejection Entity))} (ended : ended? jobs = some results) :
    Finished settings base picked results names :=
  ⟨underway.grows, delivered_of_ended underway.assigned ended, underway.texts⟩

theorem mem_texts_of_delivered {results : List (Option (Attempt Rejection Entity))}
    (delivered : List.Forall₂ (Delivered settings base names) results picked) {m : Module}
    {digest : Digest} (listed : (m, some digest) ∈ picked) :
    ∀ text ∈ (m.buildWith digest settings base).2.texts, text ∈ names.texts := by
  induction delivered with
  | nil => cases listed
  | cons first _ ih =>
    rcases List.mem_cons.mp listed with rfl | listed
    · cases first with
      | built _ texts => exact texts
    · exact ih listed

section TwoSchedules

variable {results results' : List (Option (Attempt Rejection Entity))}

/-- Two schedules enter the same texts. -/
theorem Finished.subset (finished : Finished settings base picked results names)
    (finished' : Finished settings base picked results' others) :
    ∀ text ∈ names.texts, text ∈ others.texts := by
  intro text member
  rcases finished.texts text member with old | ⟨m, digest, listed, new⟩
  · exact finished'.grows.subset old
  · exact mem_texts_of_delivered finished'.delivered listed text new

/-- Two schedules have results that are alike. -/
theorem Finished.alike (finished : Finished settings base picked results names)
    (finished' : Finished settings base picked results' others) :
    List.Forall₂ (Option.Rel (Attempt.Alike Entity.Alike names others)) results results' := by
  have back : List.Forall₂ (flip (Delivered settings base others)) picked results' :=
    finished'.delivered.flip
  refine forall₂_trans ?_ finished.delivered back
  -- Both results are alike to that of the build left to itself.
  rintro result ⟨m, digest⟩ result' first second
  cases first with
  | idle =>
    cases second
    exact .none
  | built related _ =>
    cases second with
    | built related' _ => exact .some (Attempt.Alike.join related related')

end TwoSchedules

/-! ## The order of the batch -/

end Session

namespace Job

/-- A number of turns after which the build has ended. -/
def remaining : Job → Nat
  | waiting m _ => m.ports.length + 2
  | taking _ _ _ ports => ports.length + 1
  | ended _ => 0

theorem remaining_step (settings : Settings) (job : Job) (names : Names) :
    (job.step settings names).1.remaining ≤ job.remaining - 1 := by
  cases job with
  | waiting m digest =>
    rw [step]
    cases names.text m.name with
    | error fault => exact Nat.zero_le _
    | ok moduleName => exact Nat.le_refl _
  | taking m moduleName progress ports =>
    cases ports with
    | nil => exact Nat.zero_le _
    | cons port rest =>
      rw [step]
      split
      · exact Nat.zero_le _
      · exact Nat.le_refl _
  | ended result => exact Nat.zero_le _

end Job

namespace Session

/-- The schedule that finishes each build before the next one begins. -/
def inOrder : List (Module × Option Digest) → List Nat
  | [] => []
  | (m, _) :: rest => List.replicate (m.ports.length + 2) 0 ++ (inOrder rest).map (· + 1)

theorem turns_append (first second : List Nat) (jobs : List (Option Job)) (names : Names) :
    turns settings (first ++ second) jobs names =
      turns settings second (turns settings first jobs names).1
        (turns settings first jobs names).2 := by
  induction first generalizing jobs names with
  | nil => rfl
  | cons position first ih => exact ih _ _

theorem turns_map_succ (schedule : List Nat) (job : Option Job) (jobs : List (Option Job))
    (names : Names) :
    turns settings (schedule.map (· + 1)) (job :: jobs) names =
      (job :: (turns settings schedule jobs names).1, (turns settings schedule jobs names).2) := by
  induction schedule generalizing jobs names with
  | nil => rfl
  | cons position schedule ih =>
    rw [List.map_cons, turns, turns, turn]
    exact ih _ _

theorem turns_idle (count : Nat) (jobs : List (Option Job)) (names : Names) :
    turns settings (List.replicate count 0) (none :: jobs) names = (none :: jobs, names) := by
  induction count with
  | zero => rfl
  | succ count ih => exact ih

/-- A build that has all the turns ends as it does alone. -/
theorem turns_alone {count : Nat} {job : Job} (enough : job.remaining ≤ count)
    (jobs : List (Option Job)) (names : Names) :
    turns settings (List.replicate count 0) (some job :: jobs) names =
      (some (.ended (job.alone settings names).1) :: jobs, (job.alone settings names).2) := by
  induction count generalizing job names with
  | zero =>
    cases job with
    | waiting m digest => exact absurd enough (Nat.not_succ_le_zero _)
    | taking m moduleName progress ports => exact absurd enough (Nat.not_succ_le_zero _)
    | ended result => rfl
  | succ count ih =>
    -- A turn leaves the end of the build as it is, and fewer turns to get there.
    have less := job.remaining_step settings names
    rw [List.replicate_succ, turns, turn]
    simp only
    rw [ih (by omega), Job.alone_step]

/-- The builds one after another, in turns and without them. -/
theorem turns_inOrder (settings : Settings) (picked : List (Module × Option Digest)) (names : Names) :
    ∃ results, ended? (turns settings (inOrder picked) (jobs picked) names).1 = some results ∧
      buildPicked settings picked names = (do
        let built ← settleAll results
        return (built, (turns settings (inOrder picked) (jobs picked) names).2)) := by
  induction picked generalizing names with
  | nil => exact ⟨[], rfl, rfl⟩
  | cons pick rest ih =>
    obtain ⟨m, digest⟩ := pick
    rw [inOrder, turns_append]
    cases digest with
    | none =>
      obtain ⟨results, ended, made⟩ := ih names
      rw [show jobs ((m, none) :: rest) = none :: jobs rest from rfl, turns_idle, turns_map_succ]
      refine ⟨none :: results, congrArg (Option.map (none :: ·)) ended, ?_⟩
      rw [buildPicked, made, settleAll]
      cases settleAll results <;> rfl
    | some digest =>
      -- The first build has all its turns before the others have any.
      have enough : (Job.waiting m digest).remaining ≤ m.ports.length + 2 := Nat.le_refl _
      rw [show jobs ((m, some digest) :: rest) = some (.waiting m digest) :: jobs rest from rfl,
        turns_alone enough, turns_map_succ, Job.alone]
      cases first : m.buildWith digest settings names with
      | mk result after =>
        obtain ⟨results, ended, made⟩ := ih after
        refine ⟨some result :: results, congrArg (Option.map (some result :: ·)) ended, ?_⟩
        rw [buildPicked, first, settleAll]
        simp only
        rw [made]
        cases result.settle with
        | error fault => rfl
        | ok built => cases settleAll results <;> rfl

/-- The run that builds in the order of the batch is one of those that follow a schedule. -/
theorem elaborateAllBy_inOrder (session : Session) (modules : List Module) :
    session.elaborateAllBy (inOrder (modules.zip (session.pick [] modules))) modules =
      some (session.elaborateAll modules) := by
  obtain ⟨results, ended, made⟩ := turns_inOrder session.settings
    (modules.zip (session.pick [] modules)) session.names
  rw [elaborateAllBy, elaborateAll]
  simp only
  rw [ended, made]
  cases settled : settleAll results with
  | error fault =>
    simp only [Option.map_some, settled]
    rfl
  | ok built =>
    simp only [Option.map_some, settled]
    rfl

end Session

end HdlPorts
