import HdlPorts.Proofs.BuiltEntities
import HdlPorts.Proofs.Interleaving
import HdlPorts.Proofs.ScheduledSteps
import HdlPorts.Session.Pipeline

/-! What comes out of a batch.

Identifiers are resolved and entities are printed when the whole batch has been elaborated. By then
an entity may have been replaced, but it is still stored, and it is what its module builds to in the
table of names at the end. So each module gets its own result, whatever stands around it, and the
log has one entry for each module that has no entity.
-/

set_option autoImplicit false

namespace HdlPorts

/-- The rejections among some results, in order. -/
def rejections {α : Type} (results : List (Except Rejection α)) : List Rejection :=
  results.filterMap fun
    | .ok _ => none
    | .error rejection => some rejection

/-- The values among some results, in order. -/
def successes {α : Type} (results : List (Except Rejection α)) : List α :=
  results.filterMap Except.toOption

section Results

variable {α : Type} {results : List (Except Rejection α)}

theorem length_successes (results : List (Except Rejection α)) :
    (successes results).length + (rejections results).length = results.length := by
  induction results with
  | nil => rfl
  | cons result rest ih =>
    cases result with
    | ok value =>
      change (successes rest).length + 1 + (rejections rest).length = rest.length + 1
      omega
    | error rejection =>
      change (successes rest).length + ((rejections rest).length + 1) = rest.length + 1
      omega

theorem rejections_append (first second : List (Except Rejection α)) :
    rejections (first ++ second) = rejections first ++ rejections second :=
  List.filterMap_append

theorem mem_rejections {rejection : Rejection} :
    rejection ∈ rejections results ↔ .error rejection ∈ results := by
  rw [rejections, List.mem_filterMap]
  constructor
  · rintro ⟨result, member, found⟩
    cases result with
    | ok value => cases found
    | error own =>
      cases found
      exact member
  · intro member
    exact ⟨_, member, rfl⟩

theorem mem_successes {value : α} : value ∈ successes results ↔ .ok value ∈ results := by
  rw [successes, List.mem_filterMap]
  constructor
  · rintro ⟨result, member, found⟩
    cases result with
    | ok own =>
      cases found
      exact member
    | error rejection => cases found
  · intro member
    exact ⟨_, member, rfl⟩

end Results

/-! ## The log -/

namespace Session

variable {session middle after : Session} {m : Module} {outcome : Outcome}
  {modules : List Module} {outcomes : List Outcome}

/-- The reports of the rejections among some outcomes were added to the log, each as one error, and
nothing else was. -/
structure Logs (session : Session) (outcomes : List Outcome) (after : Session) : Prop where
  entries : after.log.entries = session.log.entries ++ (rejections outcomes).map (·.diagnostic)
  errors : after.log.errors = session.log.errors + (rejections outcomes).length

theorem Logs.nil (session : Session) : session.Logs [] session :=
  ⟨(List.append_nil _).symm, rfl⟩

theorem Logs.cons (first : session.Logs [outcome] middle) (rest : middle.Logs outcomes after) :
    session.Logs (outcome :: outcomes) after := by
  have split := rejections_append [outcome] outcomes
  rw [List.singleton_append] at split
  constructor
  · rw [split, List.map_append, rest.entries, first.entries, List.append_assoc]
  · rw [split, List.length_append, rest.errors, first.errors, Nat.add_assoc]

theorem Step.logs (step : session.Step m outcome after) : session.Logs [outcome] after := by
  cases step with
  | again _ => exact ⟨(List.append_nil _).symm, rfl⟩
  | stored => exact ⟨(List.append_nil _).symm, rfl⟩
  | rejected => exact ⟨rfl, rfl⟩

theorem Steps.logs (steps : session.Steps modules outcomes after) :
    session.Logs outcomes after := by
  induction steps with
  | nil => exact .nil _
  | cons step _ ih => exact step.logs.cons ih

end Session

namespace Production

/-- What is made of a batch that was elaborated. -/
def ofBatch (batch : List Outcome × Session) : Checked Production := do
  let results ← resolve batch.2 batch.1
  let listings ← listAll batch.2.names results
  return ⟨results, listings, batch.2.log.drain.1, batch.2.log.errors, batch.2.names⟩

theorem run_eq (modules : List Module) (names : Names) (settings : Settings) :
    run modules names settings =
      (Session.start settings names).elaborateAll modules >>= ofBatch := rfl

/-- What a production says of its batch: each module has the result of its build in the table of
names at the end, listings and diagnostics are those of the results in order, and every module is
accounted for in one of the two. -/
structure Accounts (production : Production) (modules : List Module) (settings : Settings)
    (names : Names) : Prop where
  grows : names.Grows production.names
  results : List.Forall₂ (fun m result =>
    m.build settings production.names = (.ofResult result, production.names))
    modules production.results
  listings : (successes production.results).mapM (·.listing production.names) =
    .ok production.listings
  diagnostics : production.diagnostics = (rejections production.results).map (·.diagnostic)
  errorCount : production.errorCount = (rejections production.results).length
  total : production.listings.length + production.errorCount = modules.length
  hasErrors : production.hasErrors = true ↔ ∃ rejection, .error rejection ∈ production.results
  warningCount : production.warningCount = 0

/-! ## Identifiers at the end of the batch -/

variable {session : Session} {outcomes : List Outcome} {modules : List Module}

/-- Every identifier that was answered is resolved, to what its module builds to. -/
theorem resolve_ok (reports : List.Forall₂ session.Reports modules outcomes) :
    ∃ results, resolve session outcomes = .ok results ∧
      List.Forall₂ (fun m => m.Settled session.settings session.names) modules results ∧
      rejections results = rejections outcomes := by
  induction reports with
  | nil => exact ⟨[], rfl, .nil, rfl⟩
  | @cons m outcome modules outcomes first _ ih =>
    obtain ⟨results, resolved, settled, rejected⟩ := ih
    obtain ⟨result, found, own⟩ := first
    cases outcome with
    | error rejection =>
      cases found
      refine ⟨.error rejection :: results, ?_, .cons own settled, ?_⟩
      · rw [resolve, resolved]
        rfl
      · exact congrArg (rejection :: ·) rejected
    | ok id =>
      obtain ⟨entity, stored, rfl⟩ := Option.map_eq_some_iff.mp found
      refine ⟨.ok entity :: results, ?_, .cons own settled, rejected⟩
      have stored : session.entities.get? id = some entity := stored
      rw [resolve, Arena.get, stored, resolved]
      rfl

theorem listAll_eq (names : Names) (results : List (Except Rejection Entity)) :
    listAll names results = (successes results).mapM (·.listing names) := by
  induction results with
  | nil => rfl
  | cons result rest ih =>
    cases result with
    | error rejection => exact ih
    | ok entity =>
      rw [listAll, ih, show successes (.ok entity :: rest) = entity :: successes rest from rfl,
        List.mapM_cons]

theorem listAll_ok {settings : Settings} {names : Names} {results : List (Except Rejection Entity)}
    (settled : List.Forall₂ (fun m => m.Settled settings names) modules results) :
    ∃ listings, listAll names results = .ok listings := by
  rw [listAll_eq]
  refine mapM_ok fun entity member => ?_
  obtain ⟨m, _, own⟩ := exists_of_forall₂ settled (mem_successes.mp member)
  exact Module.listing_of_buildWith (own names (.refl names)) (.refl names)

/-- No rejection is reported as a warning. -/
theorem countP_warning (rejected : List Rejection) :
    (rejected.map (·.diagnostic)).countP (·.severity == .warning) = 0 := by
  rw [List.countP_map, List.countP_eq_zero]
  intro rejection _ warning
  cases warning

/-- Steps of a new session give a production, and it accounts for the modules. -/
theorem accounts_of_steps {settings : Settings} {names base : Names} {session : Session}
    (distinguished : Distinguished modules) (grows : base.Grows names)
    (steps : (Session.start settings names).Steps modules outcomes session) :
    ∃ production, ofBatch (outcomes, session) = .ok production ∧
      production.Accounts modules settings base := by
  have fresh : (Session.start settings names).UpToDate {} := fun _ _ here => by cases here
  have reports := fresh.reports_all distinguished steps
  have same : session.settings = settings := steps.settings
  obtain ⟨results, resolved, settled, rejected⟩ := resolve_ok reports
  rw [same] at settled
  obtain ⟨listings, listed⟩ := listAll_ok settled
  have made : ofBatch (outcomes, session) = .ok ⟨results, listings, session.log.entries,
      session.log.errors, session.names⟩ := by
    simp only [ofBatch, resolved, bind, Except.bind, listed]
    rfl
  -- The log was empty, so it holds what the modules of this batch were rejected for.
  obtain ⟨entries, errors⟩ := steps.logs
  rw [← rejected] at entries errors
  replace entries : session.log.entries = (rejections results).map (·.diagnostic) := entries
  replace errors : session.log.errors = (rejections results).length :=
    errors.trans (Nat.zero_add _)
  rw [listAll_eq] at listed
  refine ⟨_, made, grows.trans steps.grows, ?_, listed, entries, errors, ?_, ?_, ?_⟩
  · exact settled.imp fun m result own => own session.names (.refl session.names)
  · calc listings.length + session.log.errors
      _ = (successes results).length + (rejections results).length := by
        rw [← (mapM_eq_ok.mp listed).length_eq, errors]
      _ = results.length := length_successes results
      _ = modules.length := settled.length_eq.symm
  · rw [hasErrors, decide_eq_true_iff, errors, List.length_pos_iff_exists_mem]
    exact exists_congr fun _ => mem_rejections
  · rw [warningCount, entries]
    exact countP_warning _

/-! ## Batches in a session of their own -/

/-- What holds of a production, given how the elaboration of its batch ended. -/
structure Isolates (modules : List Module) (settings : Settings) (names : Names)
    (elaborated : Checked (List Outcome × Session)) (produced : Checked Production) : Prop where
  accounts : ∀ production, produced = .ok production → production.Accounts modules settings names
  /-- A batch that was elaborated has a production: no identifier dangles. -/
  resolves : ∀ batch, elaborated = .ok batch → ∃ production, produced = .ok production
  /-- A batch is elaborated if the table has the names and the literals have their words. -/
  returns : (∀ m ∈ modules, m.Entered names ∧ m.Readable) →
    ∃ production, produced = .ok production

theorem isolates_of_steps {settings : Settings} {names : Names}
    {elaborated : Checked (List Outcome × Session)} (distinguished : Distinguished modules)
    (steps : ∀ outcomes session, elaborated = .ok (outcomes, session) → ∃ table,
      names.Grows table ∧ (Session.start settings table).Steps modules outcomes session)
    (ok : (∀ m ∈ modules, m.Entered names ∧ m.Readable) → ∃ batch, elaborated = .ok batch) :
    Isolates modules settings names elaborated (elaborated >>= ofBatch) := by
  have resolves : ∀ batch, elaborated = .ok batch → ∃ production,
      elaborated >>= ofBatch = .ok production ∧ production.Accounts modules settings names := by
    rintro ⟨outcomes, session⟩ rfl
    obtain ⟨table, grows, steps⟩ := steps outcomes session rfl
    exact accounts_of_steps distinguished grows steps
  refine ⟨?_, ?_, ?_⟩
  · intro production made
    obtain ⟨batch, done, _⟩ := ok_of_bind made
    obtain ⟨other, made', accounts⟩ := resolves batch done
    cases made.symm.trans made'
    exact accounts
  · intro batch done
    obtain ⟨production, made, _⟩ := resolves batch done
    exact ⟨production, made⟩
  · intro sound
    obtain ⟨batch, done⟩ := ok sound
    obtain ⟨production, made, _⟩ := resolves batch done
    exact ⟨production, made⟩

/-- Every module of a batch has the result of its own build in the table of names at the end, and
its listing or its diagnostic in its place, whatever else is in the batch and whatever turns the
builds take. All identifiers resolve. -/
theorem run_isolates (distinguished : Distinguished modules) (settings : Settings)
    (names : Names) :
    Isolates modules settings names ((Session.start settings names).elaborateAll modules)
        (run modules names settings) ∧
      ∀ schedule elaborated,
        (Session.start settings names).elaborateAllBy schedule modules = some elaborated →
        Isolates modules settings names elaborated (elaborated >>= ofBatch) := by
  have resolves : (Session.start settings names).Resolves := fun _ _ here => by cases here
  have inOrder (sound : ∀ m ∈ modules, m.Entered names ∧ m.Readable) :
      ∃ batch, (Session.start settings names).elaborateAll modules = .ok batch := by
    have sound : ∀ m ∈ modules, m.Entered (Session.start settings names).names ∧ m.Readable := sound
    obtain ⟨outcomes, session, done⟩ := Session.elaborateAll_ok sound
    exact ⟨_, done⟩
  refine ⟨?_, ?_⟩
  · rw [run_eq]
    exact isolates_of_steps distinguished
      (fun _ _ done => Session.steps_of_elaborateAll resolves done) inOrder
  · intro schedule elaborated finished
    refine isolates_of_steps distinguished ?_ ?_
    · rintro outcomes session rfl
      exact Session.steps_of_elaborateAllBy resolves finished
    · intro sound
      -- Builds in the order of the batch meet no fault, and those that take turns meet the same.
      obtain ⟨batch, done⟩ := inOrder sound
      have related := Session.elaborateAllBy_alike (fun m member => (sound m member).1)
        (fun entity stored => by cases stored)
        (Session.elaborateAllBy_inOrder (.start settings names) modules) finished
      rw [done] at related
      cases related with
      | ok _ => exact ⟨_, rfl⟩

end Production

/-- A batch with a repeated, a rejected and a redeclared module. -/
theorem Production.run_isolates_batch :
    ∃ production, run Sample.batch Sample.table {} = .ok production ∧
      production.Accounts Sample.batch {} Sample.table ∧ production.results.length = 5 := by
  have distinguished : Distinguished Sample.batch :=
    Sample.distinguished.mono fun m member => List.mem_append_left _ member
  obtain ⟨isolates, _⟩ := run_isolates distinguished {} Sample.table
  obtain ⟨production, made⟩ := isolates.returns (Sample.entered_batch (.refl _))
  have accounts := isolates.accounts production made
  exact ⟨production, made, accounts, accounts.results.length_eq.symm⟩

end HdlPorts
