import HdlPorts.Proofs.Steps
import HdlPorts.Proofs.Verdicts

/-! Runs of a session and what is remembered of them.

A client elaborates modules singly or in batches; between its calls others may enter names into the
table and drain the log. A run is any sequence of such requests that met no fault. Its history lists
the elaborations one by one, those of a batch in the order of the batch. Whatever single steps
preserve holds of every run, which is how the properties of sessions are proved.
-/

set_option autoImplicit false

namespace HdlPorts

/-- One elaboration, as its caller sees it. -/
structure Elaboration where
  subject : Module
  outcome : Outcome
  /-- The entity that the outcome stood for when the call returned. -/
  entity? : Option Entity

namespace Elaboration

/-- The elaboration of a module by a call that left the session as it is here. -/
def record (after : Session) (m : Module) (outcome : Outcome) : Elaboration where
  subject := m
  outcome := outcome
  entity? :=
    match outcome with
    | .ok id => after.get? id
    | .error _ => none

def succeeded (elaboration : Elaboration) : Bool := elaboration.outcome.isOk

end Elaboration

/-- What happened in a session so far, oldest first. -/
structure History where
  elaborations : List Elaboration := []
  drained : List Diagnostic := []

/-- What may be asked of a session, by its client or by others. -/
inductive Request where
  | elaborate (m : Module)
  | elaborateAll (modules : List Module)
  /-- Other code enters a text into the table of names. -/
  | enter (text : String)
  /-- Take the diagnostics out of the log. -/
  | drain

/-- What a request is answered with. -/
structure Reply where
  outcomes : List Outcome := []
  drained : List Diagnostic := []

/-- The modules that a request elaborates. -/
def Request.modules : Request → List Module
  | elaborate m => [m]
  | elaborateAll modules => modules
  | enter _ | drain => []

/-- Answer a request. -/
def Session.serve (session : Session) : Request → Checked (Reply × Session)
  | .elaborate m => do
    let (outcome, session) ← session.elaborate m
    return ({ outcomes := [outcome] }, session)
  | .elaborateAll modules => do
    let (outcomes, session) ← session.elaborateAll modules
    return ({ outcomes }, session)
  | .enter text => return ({}, { session with names := (session.names.intern text).2 })
  | .drain => return ({ drained := session.log.drain.1 }, { session with log := session.log.drain.2 })

namespace History

/-- The history after one more request. -/
def extend (past : History) (request : Request) (reply : Reply) (after : Session) : History where
  elaborations :=
    past.elaborations ++ List.zipWith (Elaboration.record after) request.modules reply.outcomes
  drained := past.drained ++ reply.drained

/-- The history after one more elaboration. -/
def add (past : History) (elaboration : Elaboration) : History :=
  { past with elaborations := past.elaborations ++ [elaboration] }

/-- The modules that were elaborated. -/
def modules (past : History) : List Module := past.elaborations.map (·.subject)

/-- The last elaboration of a name. -/
def last? (past : History) (name : Name) : Option Elaboration :=
  past.elaborations.reverse.find? (·.subject.name == name)

end History

/-- The sessions that can be reached from a new one, with what happened on the way. -/
inductive Run (settings : Settings) (names : Names) : History → Session → Prop where
  | start : Run settings names {} (.start settings names)
  | serve {past : History} {session after : Session} {request : Request} {reply : Reply} :
      Run settings names past session → session.serve request = .ok (reply, after) →
      Run settings names (past.extend request reply after) after

namespace Session

variable {session middle after : Session} {m : Module} {outcome : Outcome}

/-- The caller of a batch sees each elaboration as if it had been the last. -/
theorem Steps.record {modules : List Module} {outcomes : List Outcome}
    (step : session.Step m outcome middle) (steps : middle.Steps modules outcomes after) :
    Elaboration.record after m outcome = Elaboration.record middle m outcome := by
  cases outcome with
  | error rejection => rfl
  | ok id =>
    obtain ⟨entity, found⟩ := step.issued
    simp only [Elaboration.record, steps.get? found, found]

/-- What single steps preserve is preserved by elaborations one after another. -/
theorem Steps.preserve {motive : History → Session → Prop}
    (each : ∀ past session m outcome after, motive past session → Step session m outcome after →
      motive (past.add (.record after m outcome)) after)
    {modules : List Module} {outcomes : List Outcome}
    (steps : session.Steps modules outcomes after) {past : History} (holds : motive past session) :
    motive { past with elaborations :=
      past.elaborations ++ List.zipWith (Elaboration.record after) modules outcomes } after := by
  induction steps generalizing past with
  | nil => simpa using holds
  | cons step rest ih =>
    -- The outcome is recorded after the whole batch, when it stands for the same entity.
    have first := each past _ _ _ _ holds step
    rw [← rest.record step] at first
    simpa [History.add] using ih first

end Session

/-- What holds of a new session and is preserved by single steps, and by what others do to the table
of names and to the log, holds of every run. -/
theorem Run.preserve {settings : Settings} {names : Names} {motive : History → Session → Prop}
    (start : motive {} (.start settings names))
    (grow : ∀ past session names, motive past session → session.names.Grows names →
      motive past { session with names })
    (drain : ∀ past session, motive past session →
      motive { past with drained := past.drained ++ session.log.drain.1 }
        { session with log := session.log.drain.2 })
    (each : ∀ past session m outcome after, motive past session →
      Session.Step session m outcome after → motive (past.add (.record after m outcome)) after)
    {past : History} {session : Session} (run : Run settings names past session) :
    motive past session := by
  -- A batch is made of steps only while current entities resolve, so both go together.
  suffices both : motive past session ∧ session.Resolves from both.1
  induction run with
  | start => exact ⟨start, fun name id here => by cases here⟩
  | @serve past session after request reply _ served ih =>
    obtain ⟨holds, resolves⟩ := ih
    cases request with
    | elaborate m =>
      obtain ⟨⟨outcome, last⟩, done, same⟩ := ok_of_bind served
      cases same
      have step := Session.step_of_elaborate done
      have next := each past session m outcome after holds step
      refine ⟨?_, step.resolves resolves⟩
      simpa [History.extend, History.add, Request.modules] using next
    | elaborateAll modules =>
      obtain ⟨⟨outcomes, last⟩, done, same⟩ := ok_of_bind served
      cases same
      obtain ⟨names, grows, steps⟩ := Session.steps_of_elaborateAll resolves done
      have grown := grow past session names holds grows
      refine ⟨?_, steps.resolves resolves⟩
      simpa [History.extend, Request.modules] using steps.preserve each grown
    | enter text =>
      cases served
      refine ⟨?_, resolves⟩
      simpa [History.extend, Request.modules] using
        grow past session _ holds (session.names.grows_intern text)
    | drain =>
      cases served
      refine ⟨?_, resolves⟩
      simpa [History.extend, Request.modules] using drain past session holds

/-! ## A run

One module is declared four times in a batch: as a design, as one that is turned down, as the first
again, and as another design. A second module has no ports. -/

namespace Sample

def batch : List Module :=
  [twoWay .bit, twoWay .real, twoWay .bit, twoWay .byte, ⟨⟨2⟩, [], .dummy⟩]

def outcomes : List Outcome :=
  [.ok ⟨0⟩, .error (.unsupportedType ⟨"B", "z", .dummy⟩ "real"), .ok ⟨1⟩, .ok ⟨2⟩, .ok ⟨3⟩]

theorem served :
    ((Session.start {} table).serve (.elaborateAll batch)).map (·.1.outcomes) = .ok outcomes := by
  decide +kernel

/-- The run that elaborates the batch. -/
theorem run :
    ∃ drained after, Run {} table
      (({} : History).extend (.elaborateAll batch) ⟨outcomes, drained⟩ after) after := by
  obtain ⟨⟨⟨_, drained⟩, after⟩, done, same⟩ := ok_of_map served
  have same : _ = outcomes := same
  subst same
  exact ⟨drained, after, .serve .start done⟩

end Sample

end HdlPorts
