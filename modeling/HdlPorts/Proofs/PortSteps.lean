import HdlPorts.Elaboration.Build
import HdlPorts.Proofs.Attempts

/-! What taking a port does to an entity that is being built.

Each step either adds to what is there or ends the build. The lemmas here say what a step has added
and under which condition; the rest of the theory does not look into the steps again.
-/

set_option autoImplicit false

namespace HdlPorts

variable {settings : Settings} {moduleName : String} {names after : Names}

namespace Entity

/-- The entity with one more signal. -/
def withSignal (entity : Entity) (signal : Signal) : Entity := (entity.addSignal signal).2

/-- The slot of the next signal. -/
def nextSlot (entity : Entity) : SignalId := ⟨entity.signals.size⟩

/-- The entity with one more drive, if there is one. -/
def withDrive? (entity : Entity) : Option Drive → Entity
  | none => entity
  | some drive => entity.addDrive drive

theorem addSignal_eq (entity : Entity) (signal : Signal) :
    entity.addSignal signal = (entity.nextSlot, entity.withSignal signal) := by
  unfold withSignal addSignal
  cases signal.role <;> rfl

/-- Name, digest and place are those of the declaration from the start. -/
structure SameHead (first second : Entity) : Prop where
  name : second.name = first.name
  digest : second.digest = first.digest
  span : second.span = first.span

theorem SameHead.refl (entity : Entity) : entity.SameHead entity := ⟨rfl, rfl, rfl⟩

theorem SameHead.trans {first second third : Entity} (left : first.SameHead second)
    (right : second.SameHead third) : first.SameHead third :=
  ⟨right.name.trans left.name, right.digest.trans left.digest, right.span.trans left.span⟩

theorem sameHead_withSignal (entity : Entity) (signal : Signal) :
    entity.SameHead (entity.withSignal signal) := by
  unfold withSignal addSignal
  cases signal.role <;> exact ⟨rfl, rfl, rfl⟩

theorem sameHead_withDrive? (entity : Entity) (drive : Option Drive) :
    entity.SameHead (entity.withDrive? drive) := by
  cases drive <;> exact ⟨rfl, rfl, rfl⟩

end Entity

namespace Progress

variable {progress next : Progress} {site : Site} {port : Port} {origin : Origin}

/-- No port has taken the name. -/
def Unclaimed (progress : Progress) (name : Name) : Prop :=
  ∀ claim ∈ progress.claims, claim.name ≠ name

theorem claimant?_eq_none {name : Name} :
    progress.claimant? name = none ↔ progress.Unclaimed name := by
  unfold claimant? Unclaimed
  rw [List.find?_eq_none]
  simp only [beq_iff_eq]

/-- The claims after one more name was claimed for a port. -/
def withClaim (progress : Progress) (port : Port) (name : Name) : List Claim :=
  ⟨name, port.name, port.span⟩ :: progress.claims

theorem claim_cases {name : Name} (done : progress.claim names site port name = .ok next) :
    progress.Unclaimed name ∧ next = ⟨progress.entity, progress.withClaim port name⟩ := by
  unfold claim at done
  cases found : progress.claimant? name with
  | none =>
    rw [found] at done
    cases done
    exact ⟨claimant?_eq_none.mp found, rfl⟩
  | some first =>
    rw [found] at done
    obtain ⟨text, _, done⟩ := ok_of_bind done
    obtain ⟨firstPort, _, done⟩ := ok_of_bind done
    cases done

theorem takeInput_cases {signal : Signal}
    (done : progress.takeInput names site port (some signal) = .ok next) :
    progress.Unclaimed signal.name ∧
      next = ⟨progress.entity.withSignal signal, progress.withClaim port signal.name⟩ := by
  obtain ⟨middle, claimed, done⟩ := ok_of_bind done
  obtain ⟨free, rfl⟩ := claim_cases claimed
  cases done
  exact ⟨free, rfl⟩

theorem takeOutput_cases {signal : Signal}
    (done : progress.takeOutput names site port origin (some signal) = .ok next) :
    progress.Unclaimed signal.name ∧
      ∃ drive, signal.drive? progress.entity.nextSlot origin site = .ok drive ∧
        next = ⟨(progress.entity.withSignal signal).withDrive? drive,
          progress.withClaim port signal.name⟩ := by
  -- The claim comes first, then the signal is stored, then its drive is made.
  obtain ⟨middle, claimed, done⟩ := ok_of_bind done
  obtain ⟨free, rfl⟩ := claim_cases claimed
  simp only [Entity.addSignal_eq] at done
  obtain ⟨drive, driven, done⟩ := ok_of_bind done
  refine ⟨free, drive, driven, ?_⟩
  cases drive with
  | none =>
    cases done
    rfl
  | some drive =>
    cases done
    rfl

theorem takeHalves_cases {halves : Halves}
    (done : progress.takeHalves names site port origin halves = .ok next) :
    ∃ middle, progress.takeInput names site port halves.input = .ok middle ∧
      middle.takeOutput names site port origin halves.output = .ok next :=
  ok_of_bind done

theorem takePort_cases (done : takePort settings moduleName progress port names = (.ok next, after)) :
    ∃ plan halves, port.plan settings moduleName names = .ok plan ∧
      port.split plan.type settings.companionSuffix names = .ok (halves, after) ∧
      progress.takeHalves after plan.site port plan.origin halves = .ok next := by
  unfold takePort at done
  cases planned : port.plan settings moduleName names with
  | error stop => simp [planned] at done
  | ok plan =>
    simp only [planned] at done
    cases split : port.split plan.type settings.companionSuffix names with
    | error fault => simp [split] at done
    | ok both =>
      obtain ⟨halves, middle⟩ := both
      simp only [split, Prod.mk.injEq] at done
      obtain ⟨taken, rfl⟩ := done
      exact ⟨plan, halves, rfl, split, taken⟩

theorem takePorts_cons {rest : List Port}
    (done : takePorts settings moduleName progress (port :: rest) names = (.ok next, after)) :
    ∃ first middle, takePort settings moduleName progress port names = (.ok first, middle) ∧
      takePorts settings moduleName first rest middle = (.ok next, after) := by
  unfold takePorts at done
  cases taken : takePort settings moduleName progress port names with
  | mk result middle =>
    cases result with
    | error stop => simp [taken] at done
    | ok first =>
      simp only [taken] at done
      exact ⟨first, middle, rfl, done⟩

theorem takeInput_head {half : Option Signal}
    (done : progress.takeInput names site port half = .ok next) :
    progress.entity.SameHead next.entity := by
  cases half with
  | none =>
    cases done
    exact .refl _
  | some signal =>
    obtain ⟨_, rfl⟩ := takeInput_cases done
    exact progress.entity.sameHead_withSignal signal

theorem takeOutput_head {half : Option Signal}
    (done : progress.takeOutput names site port origin half = .ok next) :
    progress.entity.SameHead next.entity := by
  cases half with
  | none =>
    cases done
    exact .refl _
  | some signal =>
    obtain ⟨_, drive, _, rfl⟩ := takeOutput_cases done
    exact (progress.entity.sameHead_withSignal signal).trans (Entity.sameHead_withDrive? _ drive)

theorem takePort_head (done : takePort settings moduleName progress port names = (.ok next, after)) :
    progress.entity.SameHead next.entity := by
  obtain ⟨plan, halves, _, _, taken⟩ := takePort_cases done
  obtain ⟨middle, input, output⟩ := takeHalves_cases taken
  exact (takeInput_head input).trans (takeOutput_head output)

theorem takePorts_head {ports : List Port}
    (done : takePorts settings moduleName progress ports names = (.ok next, after)) :
    progress.entity.SameHead next.entity := by
  induction ports generalizing progress names with
  | nil =>
    cases done
    exact .refl _
  | cons port rest ih =>
    obtain ⟨first, middle, one, others⟩ := takePorts_cons done
    exact (takePort_head one).trans (ih others)

theorem finish_cases {span : Span} {entity : Entity}
    (done : progress.finish moduleName span names = .ok entity) :
    entity = progress.entity ∧ progress.entity.check = .ok () := by
  unfold finish at done
  split at done
  · next passed => exact ⟨(Except.ok.inj done).symm, passed⟩
  · cases done
  · obtain ⟨text, _, done⟩ := ok_of_bind done
    cases done
  · cases done

end Progress

namespace Module

variable {m : Module} {digest : Digest}

theorem buildWith_cases {entity : Entity}
    (done : m.buildWith digest settings names = (.ok entity, after)) :
    ∃ moduleName progress, names.text m.name = .ok moduleName ∧
      Progress.takePorts settings moduleName (.start m digest) m.ports names =
        (.ok progress, after) ∧
      entity = progress.entity ∧ progress.entity.check = .ok () := by
  unfold buildWith at done
  cases text : names.text m.name with
  | error fault => simp [text] at done
  | ok moduleName =>
    simp only [text] at done
    cases taken : Progress.takePorts settings moduleName (.start m digest) m.ports names with
    | mk result middle =>
      cases result with
      | error stop => simp [taken] at done
      | ok progress =>
        simp only [taken, Prod.mk.injEq] at done
        obtain ⟨finished, rfl⟩ := done
        exact ⟨moduleName, progress, rfl, taken, Progress.finish_cases finished⟩

/-- An entity carries the name of its module and the digest that it was built for. -/
theorem buildWith_head {entity : Entity}
    (done : m.buildWith digest settings names = (.ok entity, after)) :
    entity.name = m.name ∧ entity.digest = digest := by
  obtain ⟨_, progress, _, taken, rfl, _⟩ := buildWith_cases done
  have head := Progress.takePorts_head taken
  exact ⟨head.name, head.digest⟩

end Module

end HdlPorts
