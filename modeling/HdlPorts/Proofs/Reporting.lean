import HdlPorts.Proofs.Productions

/-! Every rejection is reported once and in order.

Clients elaborate modules singly or in batches, whose builds may take turns; they and others look at
the log and take diagnostics out of it. Whatever comes in which order, what was taken and what is
still in the log are together the reports of the rejections that were answered, and the number of
errors counts them. A call adds the reports of its own rejections to the log and nothing else.
-/

set_option autoImplicit false

namespace HdlPorts

/-- What a call is answered with: outcomes of elaborations, diagnostics that were taken out of the
log, or diagnostics that were only looked at. -/
structure Answer where
  outcomes : List Outcome := []
  taken : List Diagnostic := []
  seen? : Option (List Diagnostic) := none

namespace Answer

/-- What was taken out of the log. -/
def allTaken (answers : List Answer) : List Diagnostic := answers.flatMap (·.taken)

/-- The reasons for which elaborations were turned down, in the order in which they were asked for. -/
def allRejections (answers : List Answer) : List Rejection :=
  rejections (answers.flatMap (·.outcomes))

/-- The reports of all these, in the same order. -/
def reports (answers : List Answer) : List Diagnostic := (allRejections answers).map (·.diagnostic)

end Answer

/-- The calls that may be made on a session and its log, where they meet no fault. -/
inductive Session.Call (session : Session) : Answer → Session → Prop where
  | elaborate {m : Module} {outcome : Outcome} {after : Session} :
      session.elaborate m = .ok (outcome, after) → Call session { outcomes := [outcome] } after
  | elaborateAll {modules : List Module} {outcomes : List Outcome} {after : Session} :
      session.elaborateAll modules = .ok (outcomes, after) → Call session { outcomes } after
  /-- A batch whose builds take turns. -/
  | elaborateAllBy {schedule : List Nat} {modules : List Module} {outcomes : List Outcome}
      {after : Session} : session.elaborateAllBy schedule modules = some (.ok (outcomes, after)) →
      Call session { outcomes } after
  /-- Other code enters a text into the table of names. -/
  | enter (text : String) :
      Call session {} { session with names := (session.names.intern text).2 }
  | drain :
      Call session { taken := session.log.drain.1 } { session with log := session.log.drain.2 }
  | look : Call session { seen? := some session.log.entries } session

/-- Calls on a new session, one after another, with their answers and the session that they lead
to. -/
inductive Conversation (settings : Settings) (names : Names) : List Answer → Session → Prop where
  | start : Conversation settings names [] (.start settings names)
  | call {answers : List Answer} {answer : Answer} {session after : Session} :
      Conversation settings names answers session → session.Call answer after →
      Conversation settings names (answers ++ [answer]) after

/-! ## One call -/

namespace Session

variable {session middle after : Session} {outcome : Outcome} {outcomes : List Outcome}
  {answer : Answer}

theorem logs_adopt (session : Session) (name : Name) (result : Except Rejection Entity) :
    session.Logs [(session.adopt name result).1] (session.adopt name result).2 := by
  cases result with
  | ok entity => exact ⟨(List.append_nil _).symm, rfl⟩
  | error rejection => exact ⟨rfl, rfl⟩

theorem logs_of_elaborate {m : Module} (done : session.elaborate m = .ok (outcome, after)) :
    session.Logs [outcome] after :=
  (step_of_elaborate done).logs

/-- In the second pass a module is given its result or is elaborated once more. Either way it is
logged when its turn comes. -/
theorem logs_of_elaborateBuilt {m : Module} {built : Option (Except Rejection Entity)}
    (done : session.elaborateBuilt m built = .ok (outcome, after)) :
    session.Logs [outcome] after := by
  cases built with
  | none => exact logs_of_elaborate done
  | some result =>
    rw [elaborateBuilt_some] at done
    cases adopted : session.adopt m.name result with
    | mk own last =>
      have logs := session.logs_adopt m.name result
      rw [adopted] at done logs
      cases done
      exact logs

theorem logs_of_replay {batch : List (Module × Option (Except Rejection Entity))}
    (done : session.replay batch = .ok (outcomes, after)) : session.Logs outcomes after := by
  induction batch generalizing session outcomes with
  | nil =>
    cases done
    exact .nil _
  | cons item rest ih =>
    obtain ⟨outcome, middle, others, first, tail, rfl⟩ := replay_cons done
    exact (logs_of_elaborateBuilt first).cons (ih tail)

/-- Builds run ahead of the reports, but they leave the log alone, whatever turns they take. -/
theorem logs_of_elaborateAll {modules : List Module}
    (done : session.elaborateAll modules = .ok (outcomes, after)) :
    session.Logs outcomes after := by
  obtain ⟨⟨built, names⟩, _, done⟩ := ok_of_bind done
  have logs := logs_of_replay done
  exact ⟨logs.entries, logs.errors⟩

theorem logs_of_elaborateAllBy {schedule : List Nat} {modules : List Module}
    (done : session.elaborateAllBy schedule modules = some (.ok (outcomes, after))) :
    session.Logs outcomes after := by
  obtain ⟨results, _, done⟩ := Option.map_eq_some_iff.mp done
  obtain ⟨built, _, done⟩ := ok_of_bind done
  have logs := logs_of_replay done
  exact ⟨logs.entries, logs.errors⟩

/-- A call adds the reports of its rejections to what was in the log. What it takes was in front. -/
theorem Call.logs (call : session.Call answer after) :
    answer.taken ++ after.log.entries =
        session.log.entries ++ (rejections answer.outcomes).map (·.diagnostic) ∧
      after.log.errors = session.log.errors + (rejections answer.outcomes).length := by
  cases call with
  | elaborate done =>
    have logs := logs_of_elaborate done
    exact ⟨logs.entries, logs.errors⟩
  | elaborateAll done =>
    have logs := logs_of_elaborateAll done
    exact ⟨logs.entries, logs.errors⟩
  | elaborateAllBy done =>
    have logs := logs_of_elaborateAllBy done
    exact ⟨logs.entries, logs.errors⟩
  | enter text => exact ⟨(List.append_nil _).symm, rfl⟩
  | drain => exact ⟨rfl, rfl⟩
  | look => exact ⟨(List.append_nil _).symm, rfl⟩

theorem Call.seen (call : session.Call answer after) {seen : List Diagnostic}
    (shown : answer.seen? = some seen) : seen = session.log.entries ∧ after = session := by
  cases call with
  | elaborate _ | elaborateAll _ | elaborateAllBy _ | enter _ | drain => cases shown
  | look =>
    cases shown
    exact ⟨rfl, rfl⟩

end Session

/-! ## Conversations -/

section Conversations

variable {settings : Settings} {names : Names} {answers : List Answer} {session : Session}

theorem Conversation.logs (held : Conversation settings names answers session) :
    Answer.allTaken answers ++ session.log.entries = Answer.reports answers ∧
      session.log.errors = (Answer.allRejections answers).length := by
  induction held with
  | start => exact ⟨rfl, rfl⟩
  | @call answers answer session after _ call ih =>
    obtain ⟨entries, errors⟩ := ih
    obtain ⟨own, counted⟩ := call.logs
    have split : Answer.allRejections (answers ++ [answer]) =
        Answer.allRejections answers ++ rejections answer.outcomes := by
      simp [Answer.allRejections, rejections_append]
    constructor
    · calc Answer.allTaken (answers ++ [answer]) ++ after.log.entries
        _ = Answer.allTaken answers ++ (answer.taken ++ after.log.entries) := by
          simp [Answer.allTaken]
        _ = Answer.allTaken answers ++ session.log.entries ++
            (rejections answer.outcomes).map (·.diagnostic) := by
          rw [own, List.append_assoc]
        _ = Answer.reports (answers ++ [answer]) := by
          rw [entries, Answer.reports, Answer.reports, split, List.map_append]
    · rw [counted, errors, split, List.length_append]

/-- What was taken out of the log, followed by what is in it, are the reports of all rejections that
were answered, in the order in which the elaborations were asked for, and the number of errors is
how many these are. The next call adds its own rejections to both, so that an elaboration which
succeeds adds nothing and the number never goes down; whoever looks sees what was not taken. -/
theorem Conversation.reports_rejections_once (held : Conversation settings names answers session) :
    Answer.allTaken answers ++ session.log.entries = Answer.reports answers ∧
      session.log.errors = (Answer.allRejections answers).length ∧
      ∀ answer after, session.Call answer after →
        answer.taken ++ after.log.entries =
            session.log.entries ++ (rejections answer.outcomes).map (·.diagnostic) ∧
          after.log.errors = session.log.errors + (rejections answer.outcomes).length ∧
          ∀ seen, answer.seen? = some seen →
            Answer.allTaken answers ++ seen = Answer.reports answers ∧ after = session := by
  obtain ⟨entries, errors⟩ := held.logs
  refine ⟨entries, errors, fun answer after call => ?_⟩
  obtain ⟨own, counted⟩ := call.logs
  refine ⟨own, counted, fun seen shown => ?_⟩
  obtain ⟨rfl, same⟩ := call.seen shown
  exact ⟨entries, same⟩

end Conversations

/-! ## Rejected, taken out and rejected again -/

namespace Sample

def unmapped : Rejection := .unsupportedType ⟨"B", "z", .dummy⟩ "real"

/-- The sample batch, and after the log was emptied the module that was turned down once more. -/
def again : Checked (List Outcome × Outcome) := do
  let (outcomes, session) ← (Session.start {} table).elaborateAll batch
  let (outcome, _) ← ({ session with log := session.log.drain.2 } : Session).elaborate (twoWay .real)
  return (outcomes, outcome)

theorem again_eq : again = .ok (outcomes, .error unmapped) := by decide +kernel

def answers (taken : List Diagnostic) : List Answer :=
  [{ outcomes }, { taken }, { outcomes := [.error unmapped] }]

theorem conversation : ∃ taken session, Conversation {} table (answers taken) session := by
  obtain ⟨⟨first, middle⟩, batched, done⟩ := ok_of_bind again_eq
  obtain ⟨⟨second, after⟩, single, done⟩ := ok_of_bind done
  cases done
  exact ⟨_, after, ((Conversation.start.call (.elaborateAll batched)).call .drain).call
    (.elaborate single)⟩

end Sample

/-- The same module is reported twice: the first report was taken, the second is in the log. -/
theorem Conversation.reports_rejections_once_again :
    ∃ taken session, Conversation {} Sample.table (Sample.answers taken) session ∧
      session.log.errors = 2 ∧
      taken ++ session.log.entries = List.replicate 2 Sample.unmapped.diagnostic := by
  obtain ⟨taken, session, held⟩ := Sample.conversation
  obtain ⟨entries, errors, _⟩ := held.reports_rejections_once
  have same : Answer.allTaken (Sample.answers taken) = taken := by
    simp [Answer.allTaken, Sample.answers]
  rw [same] at entries
  exact ⟨taken, session, held, errors, entries⟩

end HdlPorts
