import HdlPorts.Proofs.PortSteps
import HdlPorts.Proofs.Rebuilding
import HdlPorts.Session.Batch

/-! What one elaboration does to a session.

There are three ways to go on: the current entity of the name is used again and nothing changes, a
new entity is stored and becomes the current one, or the name loses its current entity and a
rejection is logged. Both kinds of elaboration, single and within a batch, take one of them.
-/

set_option autoImplicit false

namespace HdlPorts

namespace Attempt

variable {ε α : Type}

/-- An outcome without faults as an attempt. -/
def ofResult : Except ε α → Attempt ε α
  | .ok value => .ok value
  | .error reason => .error (.refused reason)

theorem settle_ofResult (result : Except ε α) : (ofResult result).settle = .ok result := by
  cases result <;> rfl

theorem eq_ofResult {attempt : Attempt ε α} {result : Except ε α}
    (settled : attempt.settle = .ok result) : attempt = ofResult result := by
  cases attempt with
  | ok value =>
    cases settled
    rfl
  | error stop =>
    cases stop with
    | broken fault => cases settled
    | refused reason =>
      cases settled
      rfl

theorem eq_broken {attempt : Attempt ε α} {fault : Fault}
    (settled : attempt.settle = .error fault) : attempt = .error (.broken fault) := by
  cases attempt with
  | ok value => cases settled
  | error stop =>
    cases stop with
    | broken other =>
      cases settled
      rfl
    | refused reason => cases settled

theorem unbroken_ofResult (result : Except ε α) : (ofResult result).Unbroken := by
  intro fault same
  cases result <;> cases same

end Attempt

namespace Module

/-- The build of a module ends with this result in the table and in every later one, and enters
nothing. -/
def Settled (m : Module) (settings : Settings) (names : Names) (result : Except Rejection Entity) :
    Prop :=
  ∀ later, names.Grows later → m.build settings later = (.ofResult result, later)

variable {m : Module} {settings : Settings} {names after : Names}
  {result : Except Rejection Entity}

theorem Settled.grows (settled : m.Settled settings names result) (grows : names.Grows after) :
    m.Settled settings after result :=
  fun later more => settled later (grows.trans more)

/-- Once a module has been built its build is settled. -/
theorem settled_of_build (built : m.build settings names = (.ofResult result, after)) :
    m.Settled settings after result :=
  fun _ grows => buildWith_again built (Attempt.unbroken_ofResult result) grows

theorem Settled.head {entity : Entity} (settled : m.Settled settings names (.ok entity)) :
    entity.name = m.name ∧ entity.digest = m.digest :=
  buildWith_head (settled names (.refl names))

end Module

namespace Session

variable {session after : Session} {m : Module} {outcome : Outcome} {names : Names}

/-- The session after an entity was stored as the current one of a name. -/
def store (session : Session) (name : Name) (entity : Entity) : Session :=
  { session with
    entities := ⟨session.entities.items ++ [entity]⟩
    current := (name, ⟨session.entities.size⟩) :: session.current.filter (·.1 != name) }

/-- The session after a rejection took the current entity of a name away. -/
def reject (session : Session) (name : Name) (rejection : Rejection) : Session :=
  { session.dropCurrent name with log := session.log.record rejection.diagnostic }

/-- Make the result of a build the state of a name and log it. -/
def adopt (session : Session) (name : Name) : Except Rejection Entity → Outcome × Session
  | .ok entity => (.ok ⟨session.entities.size⟩, session.store name entity)
  | .error rejection => (.error rejection, session.reject name rejection)

theorem elaborateBuilt_some (session : Session) (m : Module) (result : Except Rejection Entity) :
    session.elaborateBuilt m (some result) = .ok (session.adopt m.name result) := by
  cases result <;> rfl

theorem elaborate_of_cached {id : EntityId} (hit : session.cached? m.name m.digest = some id) :
    session.elaborate m = .ok (.ok id, session) := by
  simp only [elaborate, elaborateUnlogged, hit]
  rfl

theorem elaborate_of_built {result : Except Rejection Entity}
    (miss : session.cached? m.name m.digest = none)
    (built : m.build session.settings session.names = (.ofResult result, names)) :
    session.elaborate m = .ok (({ session with names } : Session).adopt m.name result) := by
  have built' : m.buildWith m.digest session.settings session.names = (.ofResult result, names) :=
    built
  simp only [elaborate, elaborateUnlogged, miss, built', bind, Except.bind, Attempt.settle_ofResult]
  cases result <;> rfl

theorem elaborate_of_broken {fault : Fault} (miss : session.cached? m.name m.digest = none)
    (broken : (m.build session.settings session.names).1 = .error (.broken fault)) :
    session.elaborate m = .error fault := by
  have broken' : (m.buildWith m.digest session.settings session.names).1 =
      .error (.broken fault) := broken
  simp only [elaborate, elaborateUnlogged, miss, bind, Except.bind, broken', Attempt.settle]

/-- Without a cached entity an elaboration is a build whose result is adopted. -/
theorem elaborate_of_missed {attempt : Attempt Rejection Entity}
    (miss : session.cached? m.name m.digest = none)
    (built : m.build session.settings session.names = (attempt, names)) :
    session.elaborate m = (do
      let result ← attempt.settle
      return ({ session with names } : Session).adopt m.name result) := by
  cases settled : attempt.settle with
  | error fault =>
    rw [elaborate_of_broken miss (by rw [built]; exact Attempt.eq_broken settled)]
    rfl
  | ok result =>
    rw [Attempt.eq_ofResult settled] at built
    rw [elaborate_of_built miss built]
    rfl

/-- An elaboration uses the current entity again or adopts the result of a build. -/
theorem elaborate_cases (done : session.elaborate m = .ok (outcome, after)) :
    (∃ id, session.cached? m.name m.digest = some id ∧ outcome = .ok id ∧ after = session) ∨
      (session.cached? m.name m.digest = none ∧
        ∃ result names, m.build session.settings session.names = (.ofResult result, names) ∧
          ({ session with names } : Session).adopt m.name result = (outcome, after)) := by
  cases hit : session.cached? m.name m.digest with
  | some id =>
    rw [elaborate_of_cached hit] at done
    cases done
    exact .inl ⟨id, rfl, rfl, rfl⟩
  | none =>
    cases built : m.build session.settings session.names with
    | mk attempt names =>
      rw [elaborate_of_missed hit built] at done
      obtain ⟨result, settled, adopted⟩ := ok_of_bind done
      rw [Attempt.eq_ofResult settled]
      exact .inr ⟨rfl, result, names, rfl, Except.ok.inj adopted⟩

/-! ## Current entities -/

theorem currentOf?_filter_self (current : List (Name × EntityId)) (name : Name) :
    (current.filter (·.1 != name)).find? (·.1 == name) = none := by
  rw [List.find?_eq_none]
  intro entry member same
  have different := (List.mem_filter.mp member).2
  rw [bne, same] at different
  cases different

theorem currentOf?_filter_other (current : List (Name × EntityId)) {name other : Name}
    (different : other ≠ name) :
    (current.filter (·.1 != name)).find? (·.1 == other) = current.find? (·.1 == other) := by
  induction current with
  | nil => rfl
  | cons entry rest ih =>
    -- Entries of the dropped name are not what is looked for.
    by_cases own : entry.1 = name
    · have kept : (entry.1 == other) = false := by
        rw [own]
        exact beq_false_of_ne different.symm
      rw [List.filter_cons_of_neg (by simp [own]), ih, List.find?_cons, kept]
    · rw [List.filter_cons_of_pos (by simp [own]), List.find?_cons, List.find?_cons, ih]

theorem currentOf?_store (session : Session) (name other : Name) (entity : Entity) :
    (session.store name entity).currentOf? other =
      if other = name then some ⟨session.entities.size⟩ else session.currentOf? other := by
  unfold currentOf? store
  simp only [List.find?_cons]
  split
  · next same => simp [eq_of_beq same]
  · next different =>
    have different : other ≠ name := fun same => by simp [same] at different
    rw [if_neg different, currentOf?_filter_other _ different]

theorem currentOf?_reject (session : Session) (name other : Name) (rejection : Rejection) :
    (session.reject name rejection).currentOf? other =
      if other = name then none else session.currentOf? other := by
  unfold currentOf? reject dropCurrent
  split
  · next same => rw [same, currentOf?_filter_self]; rfl
  · next different => rw [currentOf?_filter_other _ different]

theorem cached?_eq_some {name : Name} {digest : Digest} {id : EntityId} :
    session.cached? name digest = some id ↔
      session.currentOf? name = some id ∧
        ∃ entity, session.entities.get? id = some entity ∧ entity.digest = digest := by
  unfold cached?
  cases session.currentOf? name with
  | none => simp [bind, Option.bind]
  | some other =>
    cases found : session.entities.get? other with
    | none =>
      simp only [bind, Option.bind, found, Option.some.injEq]
      constructor
      · intro impossible
        cases impossible
      · rintro ⟨rfl, entity, again, _⟩
        rw [found] at again
        cases again
    | some entity =>
      simp only [bind, Option.bind, found, Option.some.injEq]
      by_cases same : entity.digest = digest
      · rw [if_pos same]
        constructor
        · intro hit
          cases hit
          exact ⟨rfl, entity, found, same⟩
        · rintro ⟨rfl, _⟩
          rfl
      · rw [if_neg same]
        constructor
        · intro impossible
          cases impossible
        · rintro ⟨rfl, other', again, same'⟩
          rw [found] at again
          cases again
          exact absurd same' same

theorem get?_store (session : Session) (name : Name) (entity : Entity) {id : EntityId}
    {old : Entity} (found : session.entities.get? id = some old) :
    (session.store name entity).entities.get? id = some old := by
  unfold Arena.get? store at *
  rw [List.getElem?_append_left (List.getElem?_eq_some_iff.mp found).1]
  exact found

theorem get?_store_new (session : Session) (name : Name) (entity : Entity) :
    (session.store name entity).entities.get? ⟨session.entities.size⟩ = some entity :=
  List.getElem?_concat_length

/-- Every name with a current entity has one that is stored and has that name. -/
def Resolves (session : Session) : Prop :=
  ∀ name id, session.currentOf? name = some id →
    ∃ entity, session.get? id = some entity ∧ entity.name = name

theorem Resolves.store (resolves : session.Resolves) {name : Name} {entity : Entity}
    (named : entity.name = name) : (session.store name entity).Resolves := by
  intro other id here
  rw [currentOf?_store] at here
  split at here
  · next same =>
    cases here
    exact ⟨entity, get?_store_new session name entity, named.trans same.symm⟩
  · obtain ⟨old, found, oldName⟩ := resolves other id here
    exact ⟨old, get?_store session name entity found, oldName⟩

theorem Resolves.reject (resolves : session.Resolves) (name : Name) (rejection : Rejection) :
    (session.reject name rejection).Resolves := by
  intro other id here
  rw [currentOf?_reject] at here
  split at here
  · cases here
  · exact resolves other id here

/-- Storing an entity of a name changes nothing for the other names. -/
theorem cached?_store_other (resolves : session.Resolves) {name other : Name} (entity : Entity)
    (different : other ≠ name) (digest : Digest) :
    (session.store name entity).cached? other digest = session.cached? other digest := by
  have here := session.currentOf?_store name other entity
  rw [if_neg different] at here
  unfold cached?
  rw [here]
  -- The current entity of the other name is stored below the new one.
  cases current : session.currentOf? other with
  | none => rfl
  | some id =>
    obtain ⟨old, found, _⟩ := resolves other id current
    have found : session.entities.get? id = some old := found
    simp only [bind, Option.bind, found, get?_store session name entity found]

theorem cached?_reject_other (session : Session) {name other : Name} (rejection : Rejection)
    (different : other ≠ name) (digest : Digest) :
    (session.reject name rejection).cached? other digest = session.cached? other digest := by
  have here := session.currentOf?_reject name other rejection
  rw [if_neg different] at here
  unfold cached?
  rw [here]
  rfl

theorem cached?_store_self (session : Session) (name : Name) (entity : Entity) {digest : Digest}
    {id : EntityId} (hit : (session.store name entity).cached? name digest = some id) :
    entity.digest = digest := by
  obtain ⟨here, found, stored, same⟩ := cached?_eq_some.mp hit
  rw [currentOf?_store, if_pos rfl] at here
  cases here
  cases (get?_store_new session name entity).symm.trans stored
  exact same

theorem cached?_reject_self (session : Session) (name : Name) (rejection : Rejection)
    (digest : Digest) : (session.reject name rejection).cached? name digest = none := by
  have here := session.currentOf?_reject name name rejection
  rw [if_pos rfl] at here
  simp only [cached?, here, bind, Option.bind]

end Session

end HdlPorts
