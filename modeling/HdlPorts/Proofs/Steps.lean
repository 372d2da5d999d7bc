import HdlPorts.Proofs.Sessions
import Mathlib.Data.List.Forall2

/-! Elaborations as steps.

An elaboration is one of three steps, and a batch is steps one after another. What holds of single
steps therefore holds of batches too. The results that a step adopts are settled: they are what the
build of the module ends with in every table from then on.
-/

set_option autoImplicit false

namespace HdlPorts.Session

/-- The three ways in which one elaboration goes on. -/
inductive Step (session : Session) (m : Module) : Outcome → Session → Prop where
  | again {id : EntityId} : session.cached? m.name m.digest = some id →
      Step session m (.ok id) session
  | stored {entity : Entity} {names : Names} : session.cached? m.name m.digest = none →
      session.names.Grows names → m.Settled session.settings names (.ok entity) →
      Step session m (.ok ⟨session.entities.size⟩)
        (({ session with names } : Session).store m.name entity)
  | rejected {rejection : Rejection} {names : Names} : session.cached? m.name m.digest = none →
      session.names.Grows names → m.Settled session.settings names (.error rejection) →
      Step session m (.error rejection)
        (({ session with names } : Session).reject m.name rejection)

/-- Elaborations one after another. -/
inductive Steps : Session → List Module → List Outcome → Session → Prop where
  | nil {session : Session} : Steps session [] [] session
  | cons {session middle after : Session} {m : Module} {outcome : Outcome} {modules : List Module}
      {outcomes : List Outcome} : Step session m outcome middle →
      Steps middle modules outcomes after →
      Steps session (m :: modules) (outcome :: outcomes) after

variable {session middle after : Session} {m : Module} {outcome : Outcome}

theorem step_of_adopt {result : Except Rejection Entity} {names : Names}
    (miss : session.cached? m.name m.digest = none) (grows : session.names.Grows names)
    (settled : m.Settled session.settings names result)
    (done : ({ session with names } : Session).adopt m.name result = (outcome, after)) :
    session.Step m outcome after := by
  cases result with
  | ok entity =>
    cases done
    exact .stored miss grows settled
  | error rejection =>
    cases done
    exact .rejected miss grows settled

theorem step_of_elaborate (done : session.elaborate m = .ok (outcome, after)) :
    session.Step m outcome after := by
  rcases elaborate_cases done with ⟨id, hit, rfl, rfl⟩ | ⟨miss, result, names, built, adopted⟩
  · exact .again hit
  · exact step_of_adopt miss (Module.grows_of_build built) (Module.settled_of_build built) adopted

theorem Step.settings (step : session.Step m outcome after) : after.settings = session.settings := by
  cases step <;> rfl

theorem Step.grows (step : session.Step m outcome after) : session.names.Grows after.names := by
  cases step with
  | again _ => exact .refl session.names
  | stored _ grows _ => exact grows
  | rejected _ grows _ => exact grows

theorem Steps.settings {modules : List Module} {outcomes : List Outcome}
    (steps : session.Steps modules outcomes after) : after.settings = session.settings := by
  induction steps with
  | nil => rfl
  | cons step _ ih => rw [ih, step.settings]

theorem Steps.grows {modules : List Module} {outcomes : List Outcome}
    (steps : session.Steps modules outcomes after) : session.names.Grows after.names := by
  induction steps with
  | nil => exact .refl _
  | cons step _ ih => exact step.grows.trans ih

/-- What a session stored stays where it is. -/
theorem Step.get? (step : session.Step m outcome after) {id : EntityId} {entity : Entity}
    (found : session.get? id = some entity) : after.get? id = some entity := by
  cases step with
  | again _ => exact found
  | stored => exact get?_store _ _ _ found
  | rejected => exact found

theorem Steps.get? {modules : List Module} {outcomes : List Outcome}
    (steps : session.Steps modules outcomes after) {id : EntityId} {entity : Entity}
    (found : session.get? id = some entity) : after.get? id = some entity := by
  induction steps with
  | nil => exact found
  | cons step _ ih => exact ih (step.get? found)

/-- An identifier is handed out together with an entity. -/
theorem Step.issued {id : EntityId} (step : session.Step m (.ok id) after) :
    ∃ entity, after.get? id = some entity := by
  cases step with
  | again hit =>
    obtain ⟨_, entity, found, _⟩ := cached?_eq_some.mp hit
    exact ⟨entity, found⟩
  | stored => exact ⟨_, get?_store_new _ _ _⟩

theorem Step.resolves (step : session.Step m outcome after) (resolves : session.Resolves) :
    after.Resolves := by
  cases step with
  | again _ => exact resolves
  | stored _ _ settled => exact Resolves.store resolves settled.head.1
  | @rejected rejection _ _ _ _ => exact Resolves.reject resolves m.name rejection

theorem Steps.resolves {modules : List Module} {outcomes : List Outcome}
    (steps : session.Steps modules outcomes after) (resolves : session.Resolves) :
    after.Resolves := by
  induction steps with
  | nil => exact resolves
  | cons step _ ih => exact ih (step.resolves resolves)

/-! ## The first pass of a batch -/

section FirstPass

variable {settings : Settings} {before names : Names} {digest : Digest}
  {rest : List (Module × Option Digest)} {built : List (Option (Except Rejection Entity))}

theorem buildPicked_none_cases
    (made : buildPicked settings ((m, none) :: rest) before = .ok (built, names)) :
    ∃ others, buildPicked settings rest before = .ok (others, names) ∧ built = none :: others := by
  obtain ⟨⟨others, last⟩, made, same⟩ := ok_of_bind made
  cases same
  exact ⟨others, made, rfl⟩

theorem buildPicked_some_cases
    (made : buildPicked settings ((m, some digest) :: rest) before = .ok (built, names)) :
    ∃ result middle others, m.buildWith digest settings before = (.ofResult result, middle) ∧
      buildPicked settings rest middle = .ok (others, names) ∧ built = some result :: others := by
  obtain ⟨result, settled, made⟩ := ok_of_bind made
  obtain ⟨⟨others, last⟩, made, same⟩ := ok_of_bind made
  cases same
  exact ⟨result, _, others, Prod.ext (Attempt.eq_ofResult settled) rfl, made, rfl⟩

theorem grows_buildPicked {picked : List (Module × Option Digest)}
    (made : buildPicked settings picked before = .ok (built, names)) : before.Grows names := by
  induction picked generalizing built before with
  | nil =>
    cases made
    exact .refl _
  | cons first rest ih =>
    obtain ⟨m, digest⟩ := first
    cases digest with
    | none =>
      obtain ⟨others, made, _⟩ := buildPicked_none_cases made
      exact ih made
    | some digest =>
      obtain ⟨result, middle, others, built, made, _⟩ := buildPicked_some_cases made
      exact (Module.grows_of_build built).trans (ih made)

/-- What the first pass has for a module: nothing, or what its build ends with from then on. -/
inductive Foreseen (settings : Settings) (names : Names) :
    Option (Except Rejection Entity) → Module × Option Digest → Prop where
  | skipped {m : Module} : Foreseen settings names none (m, none)
  | built {m : Module} {digest : Digest} {result : Except Rejection Entity} :
      (∀ later, names.Grows later → m.buildWith digest settings later = (.ofResult result, later)) →
      Foreseen settings names (some result) (m, some digest)

theorem Foreseen.grows {result : Option (Except Rejection Entity)} {pick : Module × Option Digest}
    (foreseen : Foreseen settings before result pick) (grows : before.Grows names) :
    Foreseen settings names result pick := by
  cases foreseen with
  | skipped => exact .skipped
  | built settled => exact .built fun later more => settled later (grows.trans more)

theorem foreseen_of_buildPicked {picked : List (Module × Option Digest)}
    (made : buildPicked settings picked before = .ok (built, names)) :
    List.Forall₂ (Foreseen settings names) built picked := by
  induction picked generalizing built before with
  | nil =>
    cases made
    exact .nil
  | cons first rest ih =>
    obtain ⟨m, digest⟩ := first
    cases digest with
    | none =>
      obtain ⟨others, madeRest, rfl⟩ := buildPicked_none_cases made
      exact .cons .skipped (ih madeRest)
    | some digest =>
      obtain ⟨result, middle, others, builtFirst, madeRest, rfl⟩ := buildPicked_some_cases made
      -- Builds that come after this one only let the table grow.
      refine .cons (.built fun later grows => ?_) (ih madeRest)
      exact Module.buildWith_again builtFirst (Attempt.unbroken_ofResult result)
        ((grows_buildPicked madeRest).trans grows)

/-- The module needs no build of its own in the first pass: it was cached before the batch, or is
declared earlier in it. -/
def Covered (start : Session) (seen : List (Name × Digest)) (m : Module) : Prop :=
  (start.cached? m.name m.digest).isSome ∨ (m.name, m.digest) ∈ seen

variable {start : Session} {seen : List (Name × Digest)}

theorem pick_covered (covered : start.Covered seen m) (rest : List Module) :
    start.pick seen (m :: rest) = none :: start.pick seen rest := by
  have skipped : ((start.cached? m.name m.digest).isNone && !seen.contains (m.name, m.digest)) ≠
      true := by
    rcases covered with cached | member
    · simp [Option.isSome_iff_ne_none.mp cached]
    · simp [member]
  rw [pick, if_neg skipped]

theorem pick_uncovered (uncovered : ¬ start.Covered seen m) (rest : List Module) :
    start.pick seen (m :: rest) =
      some m.digest :: start.pick ((m.name, m.digest) :: seen) rest := by
  obtain ⟨miss, unseen⟩ := not_or.mp uncovered
  have picked : ((start.cached? m.name m.digest).isNone && !seen.contains (m.name, m.digest)) =
      true := by
    simpa [unseen] using miss
  rw [pick, if_pos picked]

end FirstPass

/-! ## The second pass of a batch -/

/-- Whatever is cached now was cached before the batch or is declared earlier in it. -/
def Accounted (start : Session) (seen : List (Name × Digest)) (session : Session) : Prop :=
  ∀ name digest id, session.cached? name digest = some id →
    (start.cached? name digest).isSome ∨ (name, digest) ∈ seen

section SecondPass

variable {start : Session} {seen : List (Name × Digest)} {settings : Settings}

theorem Accounted.miss (accounted : start.Accounted seen session)
    (uncovered : ¬ start.Covered seen m) : session.cached? m.name m.digest = none := by
  cases hit : session.cached? m.name m.digest with
  | none => rfl
  | some id => exact absurd (accounted m.name m.digest id hit) uncovered

theorem Accounted.more (accounted : start.Accounted seen session) (key : Name × Digest) :
    start.Accounted (key :: seen) session :=
  fun name digest id hit => (accounted name digest id hit).imp_right (List.mem_cons_of_mem _)

theorem Accounted.step (accounted : start.Accounted seen session) (resolves : session.Resolves)
    (step : session.Step m outcome after) (covered : start.Covered seen m) :
    start.Accounted seen after := by
  intro name digest id hit
  cases step with
  | again _ => exact accounted name digest id hit
  | @stored entity names _ _ settled =>
    by_cases sameName : name = m.name
    · -- What is cached now under this name is the entity that was just stored.
      rw [sameName] at hit ⊢
      rw [← cached?_store_self _ _ _ hit, settled.head.2]
      exact covered
    · have resolves : ({ session with names } : Session).Resolves := resolves
      rw [cached?_store_other resolves entity sameName] at hit
      exact accounted name digest id hit
  | rejected _ _ _ =>
    by_cases sameName : name = m.name
    · rw [sameName, cached?_reject_self] at hit
      cases hit
    · rw [cached?_reject_other _ _ sameName] at hit
      exact accounted name digest id hit

theorem replay_cons {rest : List (Module × Option (Except Rejection Entity))}
    {built : Option (Except Rejection Entity)} {outcomes : List Outcome}
    (done : session.replay ((m, built) :: rest) = .ok (outcomes, after)) :
    ∃ outcome middle others, session.elaborateBuilt m built = .ok (outcome, middle) ∧
      middle.replay rest = .ok (others, after) ∧ outcomes = outcome :: others := by
  obtain ⟨⟨outcome, middle⟩, first, done⟩ := ok_of_bind done
  obtain ⟨⟨others, last⟩, tail, done⟩ := ok_of_bind done
  cases done
  exact ⟨outcome, middle, others, first, tail, rfl⟩

/-- The second pass of a batch is made of single steps: a module that was built in the first pass is
not cached when its turn comes. -/
theorem steps_of_replay {modules : List Module} {built : List (Option (Except Rejection Entity))}
    {outcomes : List Outcome}
    (foreseen : List.Forall₂ (Foreseen session.settings session.names) built
      (modules.zip (start.pick seen modules)))
    (accounted : start.Accounted seen session) (resolves : session.Resolves)
    (done : session.replay (modules.zip built) = .ok (outcomes, after)) :
    session.Steps modules outcomes after := by
  induction modules generalizing seen built session outcomes with
  | nil =>
    cases done
    exact .nil
  | cons m rest ih =>
    by_cases covered : start.Covered seen m
    · -- The first pass has nothing for this module, so it is elaborated like any other.
      rw [pick_covered covered rest, List.zip_cons_cons] at foreseen
      obtain ⟨_, others, own, more, rfl⟩ := List.forall₂_cons_right_iff.mp foreseen
      cases own
      obtain ⟨outcome, middle, tail, first, doneRest, rfl⟩ := replay_cons done
      have step : session.Step m outcome middle := step_of_elaborate first
      rw [← step.settings] at more
      exact .cons step (ih (more.imp fun _ _ each => each.grows step.grows)
        (accounted.step resolves step covered) (step.resolves resolves) doneRest)
    · -- The first pass has built it. The result still stands in the table of the second pass.
      rw [pick_uncovered covered rest, List.zip_cons_cons] at foreseen
      obtain ⟨_, others, own, more, rfl⟩ := List.forall₂_cons_right_iff.mp foreseen
      cases own with
      | built settled =>
        obtain ⟨outcome, middle, tail, first, doneRest, rfl⟩ := replay_cons done
        rw [elaborateBuilt_some] at first
        have step : session.Step m outcome middle :=
          step_of_adopt (accounted.miss covered) (.refl session.names) settled (Except.ok.inj first)
        have accounted := (accounted.more (m.name, m.digest)).step resolves step
          (.inr List.mem_cons_self)
        rw [← step.settings] at more
        exact .cons step (ih (more.imp fun _ _ each => each.grows step.grows) accounted
          (step.resolves resolves) doneRest)

/-- A batch is steps in the table that its first pass has left, whatever way it took. -/
theorem steps_of_passes {modules : List Module} {built : List (Option (Except Rejection Entity))}
    {names : Names} {outcomes : List Outcome}
    (foreseen : List.Forall₂ (Foreseen session.settings names) built
      (modules.zip (session.pick [] modules)))
    (resolves : session.Resolves)
    (done : ({ session with names } : Session).replay (modules.zip built) =
      .ok (outcomes, after)) :
    ({ session with names } : Session).Steps modules outcomes after := by
  have same : session.Accounted [] { session with names } :=
    fun _ _ _ hit => .inl (Option.isSome_of_eq_some hit)
  exact steps_of_replay foreseen same resolves done

/-- A batch is steps in the table that the first pass has left. -/
theorem steps_of_elaborateAll {modules : List Module} {outcomes : List Outcome}
    (resolves : session.Resolves)
    (done : session.elaborateAll modules = .ok (outcomes, after)) :
    ∃ names, session.names.Grows names ∧
      ({ session with names } : Session).Steps modules outcomes after := by
  obtain ⟨⟨built, names⟩, made, done⟩ := ok_of_bind done
  exact ⟨names, grows_buildPicked made,
    steps_of_passes (foreseen_of_buildPicked made) resolves done⟩

end SecondPass

end HdlPorts.Session
