import HdlPorts.Proofs.BuiltEntities

/-! Zeros that are driven by choice.

An output of a two-state type without an initializer is driven with zero only if the settings say
so. Two builds of a module that differ in this choice are followed through the ports together: they
make the same claims and store the same signals, and their drives differ in those zeros alone.
-/

set_option autoImplicit false

namespace HdlPorts

variable {settings : Settings} {names after : Names} {moduleName : String} {ids : List SignalId}

/-- An output that is driven with zero for its type alone, or not at all. -/
def Port.isImplicitZero (port : Port) : Bool :=
  port.direction == .output && port.initializer.isNone && port.type.isTwoState

/-- The outputs of such ports. Outputs are listed in the order of the ports that have one. -/
def implicitTargets (ports : List Port) (outputs : List SignalId) : List SignalId :=
  (((ports.filter Port.hasOutput).zip outputs).filter (·.1.isImplicitZero)).map (·.2)

/-- The outputs of a module that are driven with zero for their types alone, if at all. -/
def Module.implicitTargets (m : Module) (entity : Entity) : List SignalId :=
  HdlPorts.implicitTargets m.ports entity.outputs

def Settings.withTwoStateDefaults (settings : Settings) (choice : Bool) : Settings :=
  { settings with twoStateDefaults := choice }

/-! ## Leaving out drives -/

namespace Entity

variable {entity : Entity} {drive : Option Drive} {id : SignalId}

/-- The slot has the output that comes from the port, which is a companion unless the port is an
output itself. -/
def ComesFrom (entity : Entity) (port : Port) (id : SignalId) : Prop :=
  ∃ signal, entity.signal? id = some signal ∧ signal.role = .output ∧
    if port.direction = .output then signal.name = port.name ∧ signal.companionOf = none
    else signal.companionOf = some port.name

/-- The entity without the drives of some outputs. -/
def without (entity : Entity) (ids : List SignalId) : Entity :=
  { entity with body := entity.body.filter fun drive => !ids.contains drive.target }

theorem without_withSignal (entity : Entity) (ids : List SignalId) (signal : Signal) :
    (entity.without ids).withSignal signal = (entity.withSignal signal).without ids := by
  unfold withSignal addSignal
  cases signal.role <;> rfl

/-- A drive of another output is kept. -/
theorem without_withDrive? (other : ∀ made, drive = some made → made.target ∉ ids) :
    (entity.without ids).withDrive? drive = (entity.withDrive? drive).without ids := by
  cases drive with
  | none => rfl
  | some made => simp [withDrive?, addDrive, without, other made rfl]

/-- The last drive is left out if it is the only one of its output. -/
theorem without_last {made : Drive} (target : made.target = id)
    (free : ∀ drive ∈ entity.body, drive.target ≠ id) :
    entity.without ids = (entity.withDrive? (some made)).without (ids ++ [id]) := by
  have same : entity.body.filter (fun drive => !(ids ++ [id]).contains drive.target) =
      entity.body.filter fun drive => !ids.contains drive.target :=
    List.filter_congr fun drive member => by simp [free drive member]
  simp only [without, withDrive?, addDrive, List.filter_append, same]
  simp [target]

end Entity

/-! ## One output more -/

variable {ports earlier : List Port} {port : Port} {outputs : List SignalId} {id : SignalId}

theorem implicitTargets_input (input : port.direction = .input) :
    implicitTargets (earlier ++ [port]) outputs = implicitTargets earlier outputs := by
  simp [implicitTargets, Port.hasOutput, input]

theorem implicitTargets_output (half : port.hasOutput = true)
    (listed : (earlier.filter Port.hasOutput).length = outputs.length) :
    implicitTargets (earlier ++ [port]) (outputs ++ [id]) =
      implicitTargets earlier outputs ++ if port.isImplicitZero then [id] else [] := by
  rw [implicitTargets, List.filter_append, List.filter_singleton, half, cond_true,
    List.zip_append listed, List.filter_append, List.map_append, implicitTargets]
  cases zero : port.isImplicitZero <;> simp [zero]

theorem mem_outputs_of_implicit (member : id ∈ implicitTargets ports outputs) : id ∈ outputs := by
  obtain ⟨⟨port, target⟩, listed, rfl⟩ := List.mem_map.mp member
  exact (List.of_mem_zip (List.mem_filter.mp listed).1).2

/-! ## Two builds side by side -/

namespace Progress

variable {on off : Progress} {site : Site} {signal : Signal} {origin other : Origin}

theorem Consistent.nextSlot_unlisted (consistent : on.Consistent)
    (member : id ∈ on.entity.outputs) : id ≠ on.entity.nextSlot := by
  rintro rfl
  obtain ⟨_, found, _⟩ := consistent.wellFormed.outputs _ member
  rw [Entity.nextSlot_free] at found
  cases found

/-- Both builds have taken these ports, and the second one has left out the zeros. -/
structure Relieved (earlier : List Port) (on off : Progress) : Prop where
  entity : off.entity = on.entity.without (implicitTargets earlier on.entity.outputs)
  claims : off.claims = on.claims
  listed : (earlier.filter Port.hasOutput).length = on.entity.outputs.length

theorem Relieved.claim (relieved : Relieved earlier on off) (names : Names) (site : Site)
    (port : Port) (name : Name) :
    (∃ stop, on.claim names site port name = .error stop ∧
        off.claim names site port name = .error stop) ∨
      on.claim names site port name = .ok ⟨on.entity, on.withClaim port name⟩ ∧
        off.claim names site port name = .ok ⟨off.entity, off.withClaim port name⟩ := by
  have same : off.claimant? name = on.claimant? name := by
    rw [claimant?, claimant?, relieved.claims]
  unfold Progress.claim
  rw [same]
  cases on.claimant? name with
  | none => exact .inr ⟨rfl, rfl⟩
  | some first =>
    refine .inl ?_
    simp only
    cases names.text name with
    | error fault => exact ⟨.broken fault, rfl, rfl⟩
    | ok text =>
      cases names.text first.port with
      | error fault => exact ⟨.broken fault, rfl, rfl⟩
      | ok firstPort => exact ⟨_, rfl, rfl⟩

/-- The input half of a port, which has no drive. -/
theorem Relieved.takeInput (relieved : Relieved earlier on off) (names : Names) (site : Site)
    (port : Port) (role : signal.role = .input) :
    Attempt.Related (Relieved earlier) Eq (on.takeInput names site port (some signal))
      (off.takeInput names site port (some signal)) := by
  rcases relieved.claim names site port signal.name with ⟨stop, refused, refused'⟩ |
    ⟨claimed, claimed'⟩
  · rw [takeInput_of_refused refused, takeInput_of_refused refused']
    exact .error stop
  · rw [takeInput_of_claim claimed, takeInput_of_claim claimed']
    obtain ⟨_, outputs, _⟩ := on.entity.lists_withSignal signal
    rw [role, if_neg (by decide)] at outputs
    refine .ok ⟨?_, ?_, ?_⟩
    · simp only [outputs, relieved.entity, Entity.without_withSignal]
    · simp only [withClaim, relieved.claims]
    · rw [outputs, relieved.listed]

/-- The output half of a port. Its drives are equal, unless it has a zero that is left out. -/
theorem Relieved.takeOutput (relieved : Relieved earlier on off) (consistent : on.Consistent)
    (names : Names) (site : Site) (half : port.hasOutput = true) (role : signal.role = .output)
    (origins : if port.isImplicitZero then origin = .twoState ∧ other = .undriven
      else other = origin) :
    Attempt.Related (Relieved (earlier ++ [port])) Eq
      (on.takeOutput names site port origin (some signal))
      (off.takeOutput names site port other (some signal)) := by
  rcases relieved.claim names site port signal.name with ⟨stop, refused, refused'⟩ |
    ⟨claimed, claimed'⟩
  · rw [takeOutput_of_refused origin refused, takeOutput_of_refused other refused']
    exact .error stop
  · rw [takeOutput_of_claim origin claimed, takeOutput_of_claim other claimed']
    have slot : off.entity.nextSlot = on.entity.nextSlot := by rw [relieved.entity]; rfl
    rw [slot]
    -- What the drives have to be for the builds to stay side by side.
    suffices drives : Attempt.Related (fun drive drive' =>
        (off.entity.withSignal signal).withDrive? drive' =
          ((on.entity.withSignal signal).withDrive? drive).without
            (implicitTargets (earlier ++ [port]) (on.entity.outputs ++ [on.entity.nextSlot]))) Eq
        (signal.drive? on.entity.nextSlot origin site)
        (signal.drive? on.entity.nextSlot other site) by
      refine drives.map fun drive drive' same => ?_
      obtain ⟨_, outputs, _⟩ := on.entity.lists_withSignal signal
      obtain ⟨_, _, outputs', _⟩ := (on.entity.withSignal signal).lists_withDrive? drive
      rw [role, if_pos rfl] at outputs
      refine ⟨?_, ?_, ?_⟩
      · simp only [same, outputs', outputs]
      · simp only [withClaim, relieved.claims]
      · simp [outputs', outputs, half, relieved.listed]
    rw [implicitTargets_output half relieved.listed, relieved.entity, Entity.without_withSignal]
    cases zero : port.isImplicitZero with
    | true =>
      rw [zero, if_pos rfl] at origins
      obtain ⟨rfl, rfl⟩ := origins
      have free : ∀ drive ∈ (on.entity.withSignal signal).body,
          drive.target ≠ on.entity.nextSlot := by
        intro drive member
        rw [(on.entity.lists_withSignal signal).2.2] at member
        exact consistent.nextSlot_unlisted (consistent.wellFormed.targets drive member)
      exact .ok (Entity.without_last rfl free)
    | false =>
      rw [zero, if_neg (by decide)] at origins
      rw [origins, if_neg (by decide), List.append_nil]
      cases made : signal.drive? on.entity.nextSlot origin site with
      | error stop => exact .error stop
      | ok drive =>
        refine .ok (Entity.without_withDrive? ?_)
        rintro drive rfl member
        rw [(Signal.drive?_cases made).1] at member
        exact consistent.nextSlot_unlisted (mem_outputs_of_implicit member) rfl

theorem Relieved.skip (relieved : Relieved earlier on off) (input : port.direction = .input) :
    Relieved (earlier ++ [port]) on off := by
  refine ⟨?_, relieved.claims, ?_⟩
  · rw [implicitTargets_input input, relieved.entity]
  · simp [relieved.listed, Port.hasOutput, input]

/-- The choice makes a difference to the zeros it is about. -/
theorem origin_withTwoStateDefaults (output : port.direction = .output) :
    if port.isImplicitZero then
      port.sideOrigin true = .twoState ∧ port.sideOrigin false = .undriven
    else port.sideOrigin false = port.sideOrigin true := by
  unfold Port.isImplicitZero Port.sideOrigin
  cases port.initializer <;> cases port.type.isTwoState <;> simp [output]

/-- A port that goes both ways: its companion is driven with zero in both builds. -/
theorem Relieved.takeBoth (relieved : Relieved earlier on off) (consistent : on.Consistent)
    (names : Names) (site : Site) (inout : port.direction = .inout) {input output : Signal}
    (roles : input.role = .input ∧ output.role = .output) :
    Attempt.Related (Relieved (earlier ++ [port])) Eq
      (on.takeHalves names site port .companion ⟨some input, some output⟩)
      (off.takeHalves names site port .companion ⟨some input, some output⟩) := by
  have first := relieved.takeInput names site port roles.1
  have kept : ∀ next, on.takeInput names site port (some input) = .ok next → next.Consistent :=
    fun _ => consistent.takeInput
  have zero : port.isImplicitZero = false := by simp [Port.isImplicitZero, inout]
  simp only [takeHalves]
  generalize on.takeInput names site port (some input) = result at first kept ⊢
  generalize off.takeInput names site port (some input) = result' at first ⊢
  cases first with
  | ok further =>
    exact further.takeOutput (kept _ rfl) names site (by simp [Port.hasOutput, inout]) roles.2
      (by simp [zero])
  | refused same => exact .refused same
  | broken => exact .broken

/-- Both builds take the next port or stop for the same reason. -/
theorem Relieved.takePort (relieved : Relieved earlier on off) (consistent : on.Consistent)
    (settings : Settings) (moduleName : String) (port : Port) (names : Names) :
    Attempt.Related (Relieved (earlier ++ [port])) Eq
        (takePort (settings.withTwoStateDefaults true) moduleName on port names).1
        (takePort (settings.withTwoStateDefaults false) moduleName off port names).1 ∧
      (takePort (settings.withTwoStateDefaults false) moduleName off port names).2 =
        (takePort (settings.withTwoStateDefaults true) moduleName on port names).2 := by
  by_cases holds : names.Holds port.name
  · have known := Names.Grows.refl names
    cases resolved : port.type.signalType with
    | error text =>
      rw [takePort_unresolved holds known resolved, takePort_unresolved holds known resolved]
      exact ⟨.error _, rfl⟩
    | ok type =>
      cases direction : port.direction with
      | input =>
        rw [takePort_input holds known resolved direction,
          takePort_input holds known resolved direction]
        exact ⟨(relieved.skip direction).takeInput names _ port rfl, rfl⟩
      | output =>
        rw [takePort_output holds known resolved direction,
          takePort_output holds known resolved direction]
        exact ⟨relieved.takeOutput consistent names _ (by simp [Port.hasOutput, direction]) rfl
          (origin_withTwoStateDefaults direction), rfl⟩
      | inout =>
        cases initialized : port.initializer with
        | some initializer =>
          rw [takePort_initialized holds known resolved direction initialized,
            takePort_initialized holds known resolved direction initialized]
          exact ⟨.error _, rfl⟩
        | none =>
          -- The companion's name does not depend on the choice.
          cases interned : names.intern
              (Port.companionName (names.label port.name) settings.companionSuffix) with
          | mk companion after =>
            have taken (choice : Bool) (progress : Progress) :
                Progress.takePort (settings.withTwoStateDefaults choice) moduleName progress port
                  names = (progress.takeHalves after (port.site names moduleName) port .companion
                    ⟨some (.input port.name type port.span),
                      some (.companion companion port.name type port.span)⟩, after) :=
              takePort_inout holds known resolved direction initialized interned
            rw [taken, taken]
            exact ⟨relieved.takeBoth consistent after _ direction ⟨rfl, rfl⟩, rfl⟩
  · have unknown : names.text port.name = .error .unknownName := by
      rw [Names.text, Names.text?, List.getElem?_eq_none (Nat.le_of_not_lt holds)]
    simp only [Progress.takePort, Port.plan, unknown]
    exact ⟨.broken, rfl⟩

theorem Relieved.takePorts (relieved : Relieved earlier on off) (consistent : on.Consistent)
    (settings : Settings) (moduleName : String) (ports : List Port) (names : Names) :
    Attempt.Related (Relieved (earlier ++ ports)) Eq
        (takePorts (settings.withTwoStateDefaults true) moduleName on ports names).1
        (takePorts (settings.withTwoStateDefaults false) moduleName off ports names).1 ∧
      (takePorts (settings.withTwoStateDefaults false) moduleName off ports names).2 =
        (takePorts (settings.withTwoStateDefaults true) moduleName on ports names).2 := by
  induction ports generalizing earlier on off names with
  | nil =>
    rw [List.append_nil]
    exact ⟨.ok relieved, rfl⟩
  | cons port rest ih =>
    obtain ⟨first, same⟩ := relieved.takePort consistent settings moduleName port names
    have kept : ∀ next after, Progress.takePort (settings.withTwoStateDefaults true) moduleName on
        port names = (.ok next, after) → next.Consistent := fun _ _ => consistent.takePort
    rw [Progress.takePorts, Progress.takePorts]
    generalize Progress.takePort (settings.withTwoStateDefaults true) moduleName on port names =
      result at first same kept ⊢
    generalize Progress.takePort (settings.withTwoStateDefaults false) moduleName off port names =
      result' at first same ⊢
    obtain ⟨result, after⟩ := result
    obtain ⟨result', after'⟩ := result'
    have same : after' = after := same
    rw [same]
    have first : Attempt.Related (Relieved (earlier ++ [port])) Eq result result' := first
    cases first with
    | ok further =>
      rw [← List.singleton_append, ← List.append_assoc]
      exact ih further (kept _ _ rfl) after
    | refused reason => exact ⟨.refused reason, rfl⟩
    | broken => exact ⟨.broken, rfl⟩

theorem relieved_start (m : Module) (digest : Digest) :
    Relieved [] (start m digest) (start m digest) :=
  ⟨rfl, rfl, rfl⟩

end Progress

/-! ## Builds -/

namespace Module

variable {m : Module} {entity : Entity}

theorem outputs_comeFrom (built : m.build settings names = (.ok entity, after)) :
    List.Forall₂ entity.ComesFrom (m.ports.filter Port.hasOutput) entity.outputs := by
  obtain ⟨moduleName, splits⟩ := splits_of_buildWith built (.refl after)
  refine splits.outputs.imp fun port id half => ?_
  obtain ⟨type, _, place, _⟩ := half
  cases place with
  | output output found => exact ⟨_, found, rfl, by rw [if_pos output]; exact ⟨rfl, rfl⟩⟩
  | companion inout _ found _ =>
    exact ⟨_, found, rfl, by rw [if_neg (by rw [inout]; decide)]; rfl⟩

/-- With the choice, an output that is zero for its type alone has a zero. -/
theorem driveOf?_implicit
    (built : m.build (settings.withTwoStateDefaults true) names = (.ok entity, after))
    {target : SignalId} (implicit : target ∈ m.implicitTargets entity) :
    ∃ width span, entity.driveOf? target = some ⟨target, .zeros width, span⟩ := by
  obtain ⟨moduleName, splits⟩ := splits_of_buildWith built (.refl after)
  obtain ⟨⟨port, id⟩, member, same⟩ := List.mem_map.mp implicit
  obtain ⟨listed, zero⟩ := List.mem_filter.mp member
  have same : id = target := same
  obtain ⟨type, _, _, driven⟩ := (List.forall₂_iff_zip.mp splits.outputs).2 listed
  rw [same] at driven
  simp only [Port.isImplicitZero, Bool.and_eq_true, beq_iff_eq, Option.isNone_iff_eq_none] at zero
  obtain ⟨⟨output, uninitialized⟩, twoState⟩ := zero
  generalize entity.driveOf? target = drive at driven ⊢
  cases driven with
  | companion inout => cases output.symm.trans inout
  | declared _ initialized => cases uninitialized.symm.trans initialized
  | twoState => exact ⟨_, _, rfl⟩
  | undriven _ _ unchosen => exact absurd ⟨rfl, twoState⟩ unchosen

theorem zero_of_implicit
    (built : m.build (settings.withTwoStateDefaults true) names = (.ok entity, after))
    {drive : Drive} (member : drive ∈ entity.body)
    (implicit : drive.target ∈ m.implicitTargets entity) :
    drive.value = .zeros drive.value.width := by
  obtain ⟨moduleName, splits⟩ := splits_of_buildWith built (.refl after)
  rw [splits.body] at member
  obtain ⟨id, _, found⟩ := List.mem_filterMap.mp member
  obtain ⟨width, span, zero⟩ := driveOf?_implicit built implicit
  rw [Entity.target_of_driveOf? found, found] at zero
  cases zero
  simp only [LogicVector.zeros, LogicVector.width_filled]

/-- Two builds that differ in the choice for two-state types succeed or fail together: they end in
the same rejection and enter the same names, and if they succeed, their entities are equal but for
the body. Without the choice it is the body with the choice less the drives of the outputs that come
from output ports of two-state types without an initializer. With the choice each of these outputs
is driven, and with zero. The outputs come, in order, from the ports that have one. -/
theorem build_relieved (m : Module) (settings : Settings) (names : Names) :
    m.build (settings.withTwoStateDefaults false) names =
        ((m.build (settings.withTwoStateDefaults true) names).1.map fun entity =>
            entity.without (m.implicitTargets entity),
          (m.build (settings.withTwoStateDefaults true) names).2) ∧
      ∀ entity, (m.build (settings.withTwoStateDefaults true) names).1 = .ok entity →
        List.Forall₂ entity.ComesFrom (m.ports.filter Port.hasOutput) entity.outputs ∧
        (∀ target ∈ m.implicitTargets entity, ∃ drive ∈ entity.body, drive.target = target) ∧
          ∀ drive ∈ entity.body, drive.target ∈ m.implicitTargets entity →
            drive.value = .zeros drive.value.width := by
  constructor
  · cases found : names.text m.name with
    | error fault =>
      unfold build buildWith
      rw [found]
      rfl
    | ok moduleName =>
      obtain ⟨related, same⟩ := (Progress.relieved_start m m.digest).takePorts
        (Progress.consistent_start m m.digest) settings moduleName m.ports names
      rw [build, build, buildWith_eq m m.digest found, buildWith_eq m m.digest found, same]
      generalize (Progress.takePorts (settings.withTwoStateDefaults true) moduleName
        (.start m m.digest) m.ports names).1 = result at related ⊢
      generalize (Progress.takePorts (settings.withTwoStateDefaults false) moduleName
        (.start m m.digest) m.ports names).1 = result' at related ⊢
      cases related with
      | @ok on off relieved =>
        have entity : off.entity = on.entity.without (m.implicitTargets on.entity) :=
          relieved.entity
        simp only [Except.map, entity]
      | @refused reason other reasons =>
        rw [← reasons]
        rfl
      | broken => rfl
  · intro entity built
    have built : m.build (settings.withTwoStateDefaults true) names = (.ok entity, _) :=
      Prod.ext built rfl
    refine ⟨outputs_comeFrom built, fun target implicit => ?_, fun drive => zero_of_implicit built⟩
    obtain ⟨width, span, found⟩ := driveOf?_implicit built implicit
    exact ⟨_, List.mem_of_find?_eq_some found, rfl⟩

end Module

theorem Sample.outputs_boundary :
    (boundary.build (({} : Settings).withTwoStateDefaults true) boundaryNames).1.map (·.outputs) =
      .ok [⟨2⟩, ⟨3⟩, ⟨4⟩, ⟨5⟩] := by rfl

/-- Of the four outputs of the module with a port of each kind, one loses its drive. -/
theorem Module.build_relieved_boundary :
    ∃ entity after, Sample.boundary.build (({} : Settings).withTwoStateDefaults true)
        Sample.boundaryNames = (.ok entity, after) ∧
      Sample.boundary.implicitTargets entity = [⟨4⟩] ∧
      (∃ drive ∈ entity.body, drive.target = ⟨4⟩) ∧
      Sample.boundary.build (({} : Settings).withTwoStateDefaults false) Sample.boundaryNames =
        (.ok (entity.without [⟨4⟩]), after) := by
  obtain ⟨same, zeros⟩ := Module.build_relieved Sample.boundary {} Sample.boundaryNames
  have listed := Sample.outputs_boundary
  cases built : Sample.boundary.build (({} : Settings).withTwoStateDefaults true)
    Sample.boundaryNames with
  | mk result after =>
    rw [built] at same zeros listed
    cases result with
    | error stop => cases listed
    | ok entity =>
      have listed : entity.outputs = [⟨2⟩, ⟨3⟩, ⟨4⟩, ⟨5⟩] := Except.ok.inj listed
      have targets : Sample.boundary.implicitTargets entity = [⟨4⟩] := by
        rw [Module.implicitTargets, listed]
        decide
      refine ⟨entity, after, rfl, targets, (zeros entity rfl).2.1 ⟨4⟩ (by simp [targets]), ?_⟩
      rw [same, ← targets]
      rfl

end HdlPorts
