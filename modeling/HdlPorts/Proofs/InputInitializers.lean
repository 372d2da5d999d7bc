import HdlPorts.Proofs.PortLoop

/-! Initializers of input ports do not matter.

They are part of the declaration and so of its digest. Nothing else in a build looks at them, and
nothing in a build looks at the digest, which is only handed on to the entity.
-/

set_option autoImplicit false

namespace HdlPorts

variable {settings : Settings} {moduleName : String} {names : Names}

/-- The port as it is built: without the initializer of an input. -/
def Port.withoutInputInitializer (port : Port) : Port :=
  match port.direction with
  | .input => { port with initializer := none }
  | .output | .inout => port

/-- The module without initializers of inputs. -/
def Module.withoutInputInitializers (m : Module) : Module :=
  { m with ports := m.ports.map Port.withoutInputInitializer }

def Entity.withDigest (entity : Entity) (digest : Digest) : Entity := { entity with digest }

namespace Progress

/-- The same progress for a declaration with another digest. -/
def withDigest (progress : Progress) (digest : Digest) : Progress :=
  { progress with entity := progress.entity.withDigest digest }

variable (progress : Progress) (digest : Digest) (site : Site) (port : Port)

theorem claim_withDigest (name : Name) :
    (progress.withDigest digest).claim names site port name =
      (progress.claim names site port name).map (·.withDigest digest) := by
  have same : (progress.withDigest digest).claimant? name = progress.claimant? name := rfl
  unfold claim
  rw [same]
  cases progress.claimant? name with
  | none => rfl
  | some first =>
    simp only
    cases names.text name with
    | error fault => rfl
    | ok text => cases names.text first.port <;> rfl

theorem withSignal_withDigest (entity : Entity) (signal : Signal) :
    (entity.withDigest digest).withSignal signal = (entity.withSignal signal).withDigest digest := by
  unfold Entity.withSignal Entity.addSignal
  cases signal.role <;> rfl

theorem takeInput_withDigest (half : Option Signal) :
    (progress.withDigest digest).takeInput names site port half =
      (progress.takeInput names site port half).map (·.withDigest digest) := by
  cases half with
  | none => rfl
  | some signal =>
    simp only [takeInput, claim_withDigest]
    cases progress.claim names site port signal.name with
    | error stop => rfl
    | ok next =>
      have same := withSignal_withDigest digest next.entity signal
      exact congrArg (fun entity => Except.ok (Progress.mk entity next.claims)) same

theorem takeOutput_withDigest (origin : Origin) (half : Option Signal) :
    (progress.withDigest digest).takeOutput names site port origin half =
      (progress.takeOutput names site port origin half).map (·.withDigest digest) := by
  cases half with
  | none => rfl
  | some signal =>
    simp only [takeOutput, claim_withDigest]
    cases progress.claim names site port signal.name with
    | error stop => rfl
    | ok next =>
      simp only [Except.map, bind, Except.bind, Entity.addSignal_eq]
      have same : (next.withDigest digest).entity.withSignal signal =
          (next.entity.withSignal signal).withDigest digest :=
        withSignal_withDigest digest next.entity signal
      have slot : (next.withDigest digest).entity.nextSlot = next.entity.nextSlot := rfl
      rw [same, slot]
      cases signal.drive? next.entity.nextSlot origin site with
      | error stop => rfl
      | ok drive => cases drive <;> rfl

theorem takePort_withDigest :
    takePort settings moduleName (progress.withDigest digest) port names =
      ((takePort settings moduleName progress port names).1.map (·.withDigest digest),
        (takePort settings moduleName progress port names).2) := by
  unfold takePort
  cases port.plan settings moduleName names with
  | error stop => rfl
  | ok plan =>
    simp only
    cases port.split plan.type settings.companionSuffix names with
    | error fault => rfl
    | ok both =>
      simp only [takeHalves, takeInput_withDigest]
      cases progress.takeInput both.2 plan.site port both.1.input with
      | error stop => rfl
      | ok middle =>
        simp only [Except.map, bind, Except.bind, takeOutput_withDigest]

theorem takePorts_withDigest (ports : List Port) (names : Names) :
    takePorts settings moduleName (progress.withDigest digest) ports names =
      ((takePorts settings moduleName progress ports names).1.map (·.withDigest digest),
        (takePorts settings moduleName progress ports names).2) := by
  induction ports generalizing progress names with
  | nil => rfl
  | cons port rest ih =>
    unfold takePorts
    rw [takePort_withDigest]
    cases takePort settings moduleName progress port names with
    | mk result after =>
      cases result with
      | error stop => rfl
      | ok next => exact ih next after

theorem takePort_withoutInputInitializer :
    takePort settings moduleName progress port.withoutInputInitializer names =
      takePort settings moduleName progress port names := by
  unfold Port.withoutInputInitializer
  cases direction : port.direction with
  | output => rfl
  | inout => rfl
  | input =>
    -- An input has no output half, so nobody asks where its value comes from.
    have side : port.direction ≠ .inout := by simp [direction]
    unfold takePort Port.plan
    simp only
    cases names.text port.name with
    | error fault => rfl
    | ok portName =>
      simp only [Attempt.ofChecked, bind, Except.bind]
      cases resolved : port.type.signalType with
      | error text => simp only [Port.signalType, resolved, Attempt.refuse]
      | ok type =>
        simp only [Port.signalType, resolved, Port.origin, direction]
        cases port.initializer <;> simp only [Port.split, direction] <;> rfl

theorem takePorts_withoutInputInitializers (ports : List Port) (names : Names) :
    takePorts settings moduleName progress (ports.map Port.withoutInputInitializer) names =
      takePorts settings moduleName progress ports names := by
  induction ports generalizing progress names with
  | nil => rfl
  | cons port rest ih =>
    rw [List.map_cons]
    unfold takePorts
    rw [takePort_withoutInputInitializer]
    cases takePort settings moduleName progress port names with
    | mk result after =>
      cases result with
      | error stop => rfl
      | ok next => exact ih next after

end Progress

namespace Module

/-- Initializers of inputs reach the entity through the digest only. -/
theorem build_withoutInputInitializers (m : Module) (settings : Settings) (names : Names) :
    m.build settings names =
      ((m.withoutInputInitializers.build settings names).1.map (·.withDigest m.digest),
        (m.withoutInputInitializers.build settings names).2) := by
  have sameName : m.withoutInputInitializers.name = m.name := rfl
  unfold build
  cases found : names.text m.name with
  | error fault =>
    unfold buildWith
    rw [sameName, found]
    rfl
  | ok moduleName =>
    rw [buildWith_eq m _ found, buildWith_eq m.withoutInputInitializers _ found]
    have start : Progress.start m m.digest = (Progress.start m.withoutInputInitializers
        m.withoutInputInitializers.digest).withDigest m.digest := rfl
    have ports : m.withoutInputInitializers.ports =
        m.ports.map Port.withoutInputInitializer := rfl
    rw [start, ports, Progress.takePorts_withDigest, Progress.takePorts_withoutInputInitializers]
    cases (Progress.takePorts settings moduleName (.start m.withoutInputInitializers
      m.withoutInputInitializers.digest) m.ports names).1 <;> rfl

end Module

end HdlPorts
