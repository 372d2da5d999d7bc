import HdlPorts.Proofs.Acceptance
import HdlPorts.Proofs.InputInitializers
import Mathlib.Data.List.Forall2

/-! The verdict of a build.

The loop over the ports is followed from the first port on. As long as it goes on, the ports that it
has taken are acceptable, and its claims stand for the texts that these ports have produced. Where
it stops, the port at hand fails for the reason that is given.
-/

set_option autoImplicit false

namespace HdlPorts

variable {settings : Settings} {base names later after : Names} {moduleName : String}
  {earlier ports : List Port} {port : Port} {rejection : Rejection}

/-! ## Claims and texts -/

/-- The claim stands for a text that the port has produced. -/
def Claim.Records (names : Names) (claim : Claim) (production : String × Port) : Prop :=
  names.text? claim.name = some production.1 ∧ claim.port = production.2.name ∧
    claim.span = production.2.span

namespace Progress

variable {progress next : Progress} {taken : List (String × Port)} {name : Name} {text : String}
  {site : Site}

/-- The claims stand for these texts and ports. The last claim comes first. -/
def Tracks (names : Names) (progress : Progress) (taken : List (String × Port)) : Prop :=
  List.Forall₂ (Claim.Records names) progress.claims taken.reverse

theorem Tracks.grows (tracks : progress.Tracks names taken) (grows : names.Grows later) :
    progress.Tracks later taken :=
  List.Forall₂.imp (fun _ _ records => ⟨grows.text? records.1, records.2⟩) tracks

theorem Tracks.snoc (tracks : progress.Tracks names taken) (found : names.text? name = some text)
    (entity : Entity) (port : Port) :
    Tracks names ⟨entity, progress.withClaim port name⟩ (taken ++ [(text, port)]) := by
  unfold Tracks
  rw [List.reverse_append, List.reverse_singleton, List.singleton_append]
  exact .cons ⟨found, rfl, rfl⟩ tracks

/-- A name is claimed exactly if its text is taken. -/
theorem Tracks.claimant? (tracks : progress.Tracks names taken)
    (found : names.text? name = some text) :
    (progress.claimant? name = none ∧ ∀ first, (text, first) ∉ taken) ∨
      ∃ claim first, progress.claimant? name = some claim ∧ (text, first) ∈ taken ∧
        claim.port = first.name ∧ claim.span = first.span := by
  unfold Progress.claimant?
  unfold Tracks at tracks
  have order (production : String × Port) : production ∈ taken ↔ production ∈ taken.reverse :=
    List.mem_reverse.symm
  simp only [order]
  generalize progress.claims = claims at tracks
  generalize taken.reverse = taken at tracks
  -- Different texts have different keys, so both lists are searched in step.
  induction tracks with
  | nil => exact .inl ⟨rfl, fun _ => List.not_mem_nil⟩
  | @cons claim production claims taken records _ ih =>
    obtain ⟨own, port, span⟩ := records
    by_cases same : claim.name = name
    · refine .inr ⟨claim, production.2, List.find?_cons_of_pos (by simp [same]), ?_, port, span⟩
      rw [same] at own
      rw [← Option.some.inj (own.symm.trans found)]
      exact List.mem_cons_self
    · rw [List.find?_cons_of_neg (by simp [same])]
      rcases ih with ⟨none, fresh⟩ | ⟨claim, first, some, member, rest⟩
      · refine .inl ⟨none, ?_⟩
        intro first member
        rcases List.mem_cons.mp member with rfl | listed
        · exact same (Names.eq_of_text? own found)
        · exact fresh first listed
      · exact .inr ⟨claim, first, some, List.mem_cons_of_mem _ member, rest⟩

/-! ## Taking halves -/

theorem takeInput_of_claim {signal : Signal}
    (claimed : progress.claim names site port signal.name =
      .ok ⟨progress.entity, progress.withClaim port signal.name⟩) :
    progress.takeInput names site port (some signal) =
      .ok ⟨progress.entity.withSignal signal, progress.withClaim port signal.name⟩ := by
  rw [takeInput, claimed]
  rfl

theorem takeInput_of_refused {signal : Signal} {stop : Stop Rejection}
    (refused : progress.claim names site port signal.name = .error stop) :
    progress.takeInput names site port (some signal) = .error stop := by
  rw [takeInput, refused]
  rfl

theorem takeOutput_of_refused {signal : Signal} {stop : Stop Rejection} (origin : Origin)
    (refused : progress.claim names site port signal.name = .error stop) :
    progress.takeOutput names site port origin (some signal) = .error stop := by
  rw [takeOutput, refused]
  rfl

/-- Once the name of an output is claimed, only its drive can be turned down. -/
theorem takeOutput_of_claim {signal : Signal} (origin : Origin)
    (claimed : progress.claim names site port signal.name =
      .ok ⟨progress.entity, progress.withClaim port signal.name⟩) :
    progress.takeOutput names site port origin (some signal) =
      (signal.drive? progress.entity.nextSlot origin site).map fun drive =>
        ⟨(progress.entity.withSignal signal).withDrive? drive,
          progress.withClaim port signal.name⟩ := by
  rw [takeOutput, claimed]
  simp only [bind, Except.bind, Entity.addSignal_eq]
  cases signal.drive? progress.entity.nextSlot origin site with
  | error stop => rfl
  | ok drive => cases drive <;> rfl

end Progress

/-! ## One port -/

/-- Where an input or output gets its value from, if it gets one. -/
def Port.sideOrigin (port : Port) (twoStateDefaults : Bool) : Origin :=
  match port.initializer with
  | some initializer => .declared initializer
  | none => if twoStateDefaults && port.type.isTwoState then .twoState else .undriven

namespace Port

theorem origin_of_side (side : port.direction ≠ .inout) (twoStateDefaults : Bool) (site : Site) :
    port.origin twoStateDefaults site = .ok (port.sideOrigin twoStateDefaults) := by
  unfold origin sideOrigin
  cases direction : port.direction with
  | inout => exact absurd direction side
  | input => cases port.initializer <;> rfl
  | output => cases port.initializer <;> rfl

theorem plan_eq (holds : base.Holds port.name) (grows : base.Grows names) :
    port.plan settings moduleName names = (do
      let type ← port.signalType (port.site base moduleName)
      let origin ← port.origin settings.twoStateDefaults (port.site base moduleName)
      return ⟨port.site base moduleName, type, origin⟩) := by
  rw [plan, grows.text_ok (Names.text_label holds)]
  rfl

theorem signalType_ok {type : SignalType} (resolved : port.type.signalType = .ok type)
    (site : Site) : port.signalType site = .ok type := by
  rw [signalType, resolved]

theorem drive?_declared {initializer : Expression} (twoStateDefaults : Bool)
    (initialized : port.initializer = some initializer) (signal : Signal) (target : SignalId)
    (site : Site) :
    signal.drive? target (port.sideOrigin twoStateDefaults) site =
      (initializer.fit signal.type.width.toNat site).map fun value =>
        some ⟨target, value, site.span⟩ := by
  rw [sideOrigin, initialized]
  rfl

/-- Nothing else can be turned down. -/
theorem drive?_undeclared (twoStateDefaults : Bool) (uninitialized : port.initializer = none)
    (signal : Signal) (target : SignalId) (site : Site) :
    ∃ drive, signal.drive? target (port.sideOrigin twoStateDefaults) site = .ok drive := by
  rw [sideOrigin, uninitialized]
  simp only
  split
  · exact ⟨_, rfl⟩
  · exact ⟨_, rfl⟩

/-- The port is an output, and a fault is met in its initializer. -/
def Breaks (names : Names) (moduleName : String) (port : Port) (fault : Fault) : Prop :=
  ∃ type initializer, port.direction = .output ∧ port.type.signalType = .ok type ∧
    port.initializer = some initializer ∧
    initializer.fit type.width.toNat (port.site names moduleName) = .error (.broken fault)

theorem produced_side (side : port.direction ≠ .inout) (suffix : String) :
    port.produced base suffix = [base.label port.name] := by
  unfold produced
  cases direction : port.direction with
  | inout => exact absurd direction side
  | input => rfl
  | output => rfl

end Port

namespace Progress

variable {progress next : Progress} {type : SignalType} {name : Name} {text : String}

theorem takePort_unresolved (holds : base.Holds port.name)
    (grows : base.Grows names) (unresolved : port.type.signalType = .error text) :
    takePort settings moduleName progress port names =
      (.error (.refused (.unsupportedType (port.site base moduleName) text)), names) := by
  simp only [takePort, Port.plan_eq holds grows, Port.signalType, unresolved, bind, Except.bind]
  rfl

theorem takePort_initialized {initializer : Expression} (holds : base.Holds port.name)
    (grows : base.Grows names) (resolved : port.type.signalType = .ok type)
    (inout : port.direction = .inout) (initialized : port.initializer = some initializer) :
    takePort settings moduleName progress port names =
      (.error (.refused (.initializedInout (port.site base moduleName))), names) := by
  simp only [takePort, Port.plan_eq holds grows, Port.signalType_ok resolved, Port.origin, inout,
    initialized, bind, Except.bind]
  rfl

theorem takePort_input (holds : base.Holds port.name) (grows : base.Grows names)
    (resolved : port.type.signalType = .ok type) (input : port.direction = .input) :
    takePort settings moduleName progress port names =
      (progress.takeInput names (port.site base moduleName) port
        (some (.input port.name type port.span)), names) := by
  have side : port.direction ≠ .inout := by
    rw [input]
    decide
  simp only [takePort, Port.plan_eq holds grows, Port.signalType_ok resolved,
    Port.origin_of_side side, Port.split_input input, takeHalves, bind, Except.bind, pure,
    Except.pure]
  cases progress.takeInput names (port.site base moduleName) port
    (some (.input port.name type port.span)) <;> rfl

theorem takePort_output (holds : base.Holds port.name) (grows : base.Grows names)
    (resolved : port.type.signalType = .ok type) (output : port.direction = .output) :
    takePort settings moduleName progress port names =
      (progress.takeOutput names (port.site base moduleName) port
        (port.sideOrigin settings.twoStateDefaults)
        (some (.output port.name type port.span)), names) := by
  have side : port.direction ≠ .inout := by
    rw [output]
    decide
  simp only [takePort, Port.plan_eq holds grows, Port.signalType_ok resolved,
    Port.origin_of_side side, Port.split_output output, takeHalves, takeInput, bind, Except.bind,
    pure, Except.pure]

theorem takePort_inout (holds : base.Holds port.name) (grows : base.Grows names)
    (resolved : port.type.signalType = .ok type) (inout : port.direction = .inout)
    (uninitialized : port.initializer = none) {companion : Name}
    (interned : names.intern (Port.companionName (base.label port.name) settings.companionSuffix) =
      (companion, after)) :
    takePort settings moduleName progress port names =
      (progress.takeHalves after (port.site base moduleName) port .companion
        ⟨some (.input port.name type port.span),
          some (.companion companion port.name type port.span)⟩, after) := by
  have text := grows.text_ok (Names.text_label holds)
  simp only [takePort, Port.plan_eq holds grows, Port.signalType_ok resolved, Port.origin, inout,
    uninitialized, Port.split_inout inout text, interned, bind, Except.bind, pure, Except.pure]

/-- The loop goes on, or stops at this port for a reason. -/
def Verdict (settings : Settings) (base : Names) (moduleName : String) (earlier : List Port)
    (port : Port) (result : Attempt Rejection Progress × Names) : Prop :=
  (∃ next after, result = (.ok next, after) ∧ base.Grows after ∧
    next.Tracks after ((earlier ++ [port]).flatMap
      (Port.productions base settings.companionSuffix)) ∧
    Acceptable settings base moduleName (earlier ++ [port])) ∨
  ∃ rejection, Fails settings base moduleName earlier port rejection ∧
    result.1 = .error (.refused rejection)

/-- A claim goes through if the text is fresh. Otherwise the port fails for a name. -/
theorem Tracks.claim {before rest : List String}
    (tracks : progress.Tracks names
      (earlier.flatMap (Port.productions base settings.companionSuffix) ++ before.map (·, port)))
    (found : names.text? name = some text) (grows : base.Grows names)
    (holds : ∀ other ∈ earlier ++ [port], base.Holds other.name)
    (resolved : port.type.signalType = .ok type)
    (uninitialized : port.direction = .inout → port.initializer = none)
    (produced : port.produced base settings.companionSuffix = before ++ text :: rest)
    (distinct :
      (earlier.flatMap (Port.produced base settings.companionSuffix) ++ before).Nodup) :
    (text ∉ earlier.flatMap (Port.produced base settings.companionSuffix) ++ before ∧
      progress.claim names (port.site base moduleName) port name =
        .ok ⟨progress.entity, progress.withClaim port name⟩) ∨
    ∃ rejection, Fails settings base moduleName earlier port rejection ∧
      progress.claim names (port.site base moduleName) port name =
        .error (.refused rejection) := by
  rcases tracks.claimant? found with ⟨none, fresh⟩ | ⟨claim, first, some, taken, port', span⟩
  · refine .inl ⟨?_, ?_⟩
    · intro member
      rcases List.mem_append.mp member with old | own
      · obtain ⟨other, own⟩ := List.mem_flatMap.mp old
        exact fresh other (List.mem_append_left _ (mem_productions.mpr own))
      · exact fresh port (List.mem_append_right _ (List.mem_map.mpr ⟨text, own, rfl⟩))
    · rw [Progress.claim, none]
      rfl
  · have known : base.Holds first.name := by
      rcases List.mem_append.mp taken with old | own
      · exact holds first (List.mem_append_left _ (mem_productions.mp old).1)
      · obtain ⟨_, _, same⟩ := List.mem_map.mp own
        have same : port = first := congrArg Prod.snd same
        rw [← same]
        exact holds port (List.mem_append_right _ (List.mem_singleton.mpr rfl))
    refine .inr ⟨_, .name resolved uninitialized produced distinct taken, ?_⟩
    rw [Progress.claim, some]
    simp only [Names.text_eq_ok.mpr found, port', span, grows.text_ok (Names.text_label known),
      Attempt.ofChecked, bind, Except.bind]
    rfl

theorem produced_snoc :
    (earlier ++ [port]).flatMap (Port.produced base settings.companionSuffix) =
      earlier.flatMap (Port.produced base settings.companionSuffix) ++
        port.produced base settings.companionSuffix := by
  rw [List.flatMap_append, List.flatMap_singleton]

theorem productions_snoc :
    (earlier ++ [port]).flatMap (Port.productions base settings.companionSuffix) =
      earlier.flatMap (Port.productions base settings.companionSuffix) ++
        (port.produced base settings.companionSuffix).map (·, port) := by
  rw [List.flatMap_append, List.flatMap_singleton, Port.productions]

section OnePort

variable (grows : base.Grows names)
  (tracks : progress.Tracks names
    (earlier.flatMap (Port.productions base settings.companionSuffix)))
  (acceptable : Acceptable settings base moduleName earlier)
  (holds : ∀ other ∈ earlier ++ [port], base.Holds other.name)
  (resolved : port.type.signalType = .ok type)

include grows tracks acceptable holds resolved

/-- The first name that a port claims is its own. -/
theorem claim_own {rest : List String}
    (uninitialized : port.direction = .inout → port.initializer = none)
    (produced : port.produced base settings.companionSuffix = base.label port.name :: rest) :
    (progress.claim names (port.site base moduleName) port port.name =
        .ok ⟨progress.entity, progress.withClaim port port.name⟩ ∧
      (∀ entity : Entity, Tracks names ⟨entity, progress.withClaim port port.name⟩
        (earlier.flatMap (Port.productions base settings.companionSuffix) ++
          [base.label port.name].map (·, port))) ∧
      (earlier.flatMap (Port.produced base settings.companionSuffix) ++
        [base.label port.name]).Nodup) ∨
    ∃ rejection, Fails settings base moduleName earlier port rejection ∧
      progress.claim names (port.site base moduleName) port port.name =
        .error (.refused rejection) := by
  have own := holds port (List.mem_append_right _ (List.mem_singleton.mpr rfl))
  have text := grows.text? (Names.text?_label own)
  have distinct : (earlier.flatMap (Port.produced base settings.companionSuffix) ++ []).Nodup := by
    rw [List.append_nil]
    exact acceptable.distinct
  have none : progress.Tracks names
      (earlier.flatMap (Port.productions base settings.companionSuffix) ++ [].map (·, port)) := by
    rwa [List.map_nil, List.append_nil]
  rcases none.claim text grows holds resolved uninitialized produced distinct with
    ⟨fresh, claimed⟩ | refused
  · rw [List.append_nil] at fresh
    refine .inl ⟨claimed, fun entity => tracks.snoc text entity port, ?_⟩
    exact List.nodup_append_comm.mp (List.nodup_cons.mpr ⟨fresh, acceptable.distinct⟩)
  · exact .inr refused

theorem verdict_input (input : port.direction = .input) :
    Verdict settings base moduleName earlier port
      (takePort settings moduleName progress port names) := by
  have own := holds port (List.mem_append_right _ (List.mem_singleton.mpr rfl))
  have side : port.direction ≠ .inout := by simp [input]
  have produced : port.produced base _ = _ := Port.produced_side side settings.companionSuffix
  rw [takePort_input own grows resolved input]
  rcases claim_own grows tracks acceptable holds resolved (absurd · side) produced with
    ⟨claimed, tracks, distinct⟩ | ⟨rejection, fails, refused⟩
  · refine .inl ⟨_, names, congrArg (·, names) (takeInput_of_claim claimed), grows, ?_, ?_⟩
    · rw [productions_snoc, produced]
      exact tracks _
    · rw [← produced, ← produced_snoc] at distinct
      refine acceptable.snoc resolved (absurd · side) distinct ?_
      intro output
      rw [input] at output
      cases output
  · exact .inr ⟨rejection, fails, takeInput_of_refused refused⟩

theorem verdict_output (output : port.direction = .output) :
    Verdict settings base moduleName earlier port
        (takePort settings moduleName progress port names) ∨
      ∃ fault, port.Breaks base moduleName fault ∧
        (takePort settings moduleName progress port names).1 = .error (.broken fault) := by
  have own := holds port (List.mem_append_right _ (List.mem_singleton.mpr rfl))
  have side : port.direction ≠ .inout := by simp [output]
  have produced : port.produced base _ = _ := Port.produced_side side settings.companionSuffix
  rw [takePort_output own grows resolved output]
  rcases claim_own grows tracks acceptable holds resolved (absurd · side) produced with
    ⟨claimed, tracks, distinct⟩ | ⟨rejection, fails, refused⟩
  · rw [takeOutput_of_claim _ claimed]
    rw [← produced, ← productions_snoc] at tracks
    rw [← produced, ← produced_snoc] at distinct
    -- The name is claimed before the value is looked at, so only the value can be wrong now.
    cases initialized : port.initializer with
    | none =>
      obtain ⟨drive, driven⟩ := Port.drive?_undeclared settings.twoStateDefaults initialized
        (.output port.name type port.span) progress.entity.nextSlot (port.site base moduleName)
      rw [driven]
      refine .inl (.inl ⟨_, names, rfl, grows, tracks _, ?_⟩)
      refine acceptable.snoc resolved (absurd · side) distinct ?_
      intro _ initializer impossible
      cases initialized.symm.trans impossible
    | some initializer =>
      rw [Port.drive?_declared settings.twoStateDefaults initialized]
      cases fitted : initializer.fit type.width.toNat (port.site base moduleName) with
      | ok value =>
        simp only [Signal.output, fitted]
        refine .inl (.inl ⟨_, names, rfl, grows, tracks _, ?_⟩)
        refine acceptable.snoc resolved (absurd · side) distinct ?_
        intro _ other same
        cases initialized.symm.trans same
        exact ⟨value, fitted⟩
      | error stop =>
        simp only [Signal.output, fitted]
        cases stop with
        | broken fault =>
          exact .inr ⟨fault, ⟨type, initializer, output, resolved, initialized, fitted⟩, rfl⟩
        | refused rejection =>
          rcases Expression.fit_refused fitted with ⟨valueWidth, rfl⟩ | ⟨reason, rfl⟩
          · exact .inl (.inr ⟨_, .width resolved output initialized distinct fitted, rfl⟩)
          · exact .inl (.inr ⟨_, .value resolved output initialized distinct fitted, rfl⟩)
  · exact .inl (.inr ⟨rejection, fails, takeOutput_of_refused _ refused⟩)

/-- A port that goes both ways claims its own name and then that of its companion, which may be
its own. -/
theorem verdict_inout (inout : port.direction = .inout) (uninitialized : port.initializer = none) :
    Verdict settings base moduleName earlier port
      (takePort settings moduleName progress port names) := by
  have own := holds port (List.mem_append_right _ (List.mem_singleton.mpr rfl))
  let companionText := Port.companionName (base.label port.name) settings.companionSuffix
  have produced : port.produced base settings.companionSuffix =
      [base.label port.name] ++ [companionText] := by
    rw [Port.produced, inout]
    rfl
  cases interned : names.intern companionText with
  | mk companion after =>
    rw [takePort_inout own grows resolved inout uninitialized interned, takeHalves]
    have enters := names.grows_intern companionText
    have found := names.text?_intern companionText
    rw [interned] at enters found
    have grows := grows.trans enters
    rcases claim_own grows (tracks.grows enters) acceptable holds resolved
      (fun _ => uninitialized) produced with
      ⟨claimed, tracks, distinct⟩ | ⟨rejection, fails, refused⟩
    · rw [takeInput_of_claim claimed]
      -- By now the port's own name is taken too.
      have tracks := tracks (progress.entity.withSignal (.input port.name type port.span))
      rcases tracks.claim found grows holds resolved (fun _ => uninitialized) produced
        distinct with ⟨fresh, claimed⟩ | ⟨rejection, fails, refused⟩
      · refine .inl ⟨_, after, congrArg (·, after) (takeOutput_of_claim .companion claimed), grows,
          ?_, ?_⟩
        · rw [productions_snoc, produced, List.map_append, ← List.append_assoc]
          exact tracks.snoc found _ port
        · have distinct : (earlier.flatMap (Port.produced base settings.companionSuffix) ++
              [base.label port.name] ++ [companionText]).Nodup :=
            List.nodup_append_comm.mp (List.nodup_cons.mpr ⟨fresh, distinct⟩)
          rw [List.append_assoc, ← produced, ← produced_snoc] at distinct
          refine acceptable.snoc resolved (fun _ => uninitialized) distinct ?_
          intro output
          rw [inout] at output
          cases output
      · exact .inr ⟨rejection, fails, takeOutput_of_refused .companion refused⟩
    · rw [takeInput_of_refused refused]
      exact .inr ⟨rejection, fails, rfl⟩

end OnePort

theorem takePort_verdict (grows : base.Grows names)
    (tracks : progress.Tracks names
      (earlier.flatMap (Port.productions base settings.companionSuffix)))
    (acceptable : Acceptable settings base moduleName earlier)
    (holds : ∀ other ∈ earlier ++ [port], base.Holds other.name) :
    Verdict settings base moduleName earlier port
        (takePort settings moduleName progress port names) ∨
      ∃ fault, port.Breaks base moduleName fault ∧
        (takePort settings moduleName progress port names).1 = .error (.broken fault) := by
  have own := holds port (List.mem_append_right _ (List.mem_singleton.mpr rfl))
  cases resolved : port.type.signalType with
  | error text =>
    rw [takePort_unresolved own grows resolved]
    exact .inl (.inr ⟨_, .type resolved, rfl⟩)
  | ok type =>
    cases direction : port.direction with
    | input => exact .inl (verdict_input grows tracks acceptable holds resolved direction)
    | output => exact verdict_output grows tracks acceptable holds resolved direction
    | inout =>
      cases initialized : port.initializer with
      | none =>
        exact .inl (verdict_inout grows tracks acceptable holds resolved direction initialized)
      | some initializer =>
        rw [takePort_initialized own grows resolved direction initialized]
        exact .inl (.inr ⟨_, .initializer resolved direction initialized, rfl⟩)

/-! ## All ports -/

theorem takePorts_of_ok {rest : List Port} (taken : takePort settings moduleName progress port names =
      (.ok next, after)) :
    takePorts settings moduleName progress (port :: rest) names =
      takePorts settings moduleName next rest after := by
  rw [takePorts, taken]

theorem takePorts_of_error {rest : List Port} {stop : Stop Rejection}
    (stopped : (takePort settings moduleName progress port names).1 = .error stop) :
    (takePorts settings moduleName progress (port :: rest) names).1 = .error stop := by
  rw [takePorts]
  cases taken : takePort settings moduleName progress port names with
  | mk result after =>
    rw [taken] at stopped
    have stopped : result = .error stop := stopped
    rw [stopped]

/-- The loop takes all ports if they are acceptable, and else stops at the first one that fails or
breaks. -/
theorem takePorts_verdict (grows : base.Grows names)
    (tracks : progress.Tracks names
      (earlier.flatMap (Port.productions base settings.companionSuffix)))
    (acceptable : Acceptable settings base moduleName earlier)
    (holds : ∀ other ∈ earlier ++ ports, base.Holds other.name) :
    (∃ next after, takePorts settings moduleName progress ports names = (.ok next, after) ∧
      Acceptable settings base moduleName (earlier ++ ports)) ∨
    (∃ before port rest rejection, ports = before ++ port :: rest ∧
      Acceptable settings base moduleName (earlier ++ before) ∧
      Fails settings base moduleName (earlier ++ before) port rejection ∧
      (takePorts settings moduleName progress ports names).1 = .error (.refused rejection)) ∨
    ∃ port ∈ ports, ∃ fault, port.Breaks base moduleName fault ∧
      (takePorts settings moduleName progress ports names).1 = .error (.broken fault) := by
  -- The ports that were taken move over to `earlier`, one at a time.
  induction ports generalizing earlier progress names with
  | nil =>
    rw [List.append_nil]
    exact .inl ⟨progress, names, rfl, acceptable⟩
  | cons port rest ih =>
    have holds' : ∀ other ∈ earlier ++ [port], base.Holds other.name := by
      intro other member
      refine holds other ?_
      rw [← List.singleton_append, ← List.append_assoc]
      exact List.mem_append_left _ member
    rcases takePort_verdict grows tracks acceptable holds' with
      (⟨next, after, taken, grows, tracks, acceptable⟩ | ⟨rejection, fails, refused⟩) |
        ⟨fault, breaks, broken⟩
    · have further := ih grows tracks acceptable
        (by rwa [List.append_assoc, List.singleton_append])
      rw [takePorts_of_ok taken]
      rw [List.append_assoc, List.singleton_append] at further
      rcases further with ⟨last, final, done, acceptable⟩ |
        ⟨before, other, tail, rejection, rfl, acceptable, fails, refused⟩ |
        ⟨other, member, fault, breaks, broken⟩
      · exact .inl ⟨last, final, done, acceptable⟩
      · rw [List.append_assoc, List.singleton_append] at acceptable fails
        exact .inr (.inl
          ⟨port :: before, other, tail, rejection, rfl, acceptable, fails, refused⟩)
      · exact .inr (.inr ⟨other, List.mem_cons_of_mem _ member, fault, breaks, broken⟩)
    · refine .inr (.inl ⟨[], port, rest, rejection, rfl, ?_, ?_, takePorts_of_error refused⟩)
      · rwa [List.append_nil]
      · rwa [List.append_nil]
    · exact .inr (.inr ⟨port, List.mem_cons_self, fault, breaks, takePorts_of_error broken⟩)

end Progress

/-! ## A module with one port that goes both ways -/

namespace Sample

def table : Names := ⟨["B", "z", "C"], by decide⟩

def twoWay (type : PortType) : Module := ⟨⟨0⟩, [⟨⟨1⟩, .inout, type, none, .dummy⟩], .dummy⟩

theorem entered_twoWay (type : PortType) : (twoWay type).Entered table := by
  refine ⟨(by decide : Names.Holds table ⟨0⟩), ?_⟩
  intro port member
  rw [List.mem_singleton.mp member]
  exact (by decide : Names.Holds table ⟨1⟩)

theorem readable_twoWay (type : PortType) : (twoWay type).Readable := by
  intro port member output
  rw [List.mem_singleton.mp member] at output
  cases output

end Sample

/-! ## Modules -/

namespace Module

variable {m : Module}

/-- A build gives an entity, or the reason why the first port at fault is turned down, or the fault
that is met in an initializer. -/
theorem build_outcome (entered : m.Entered names) (settings : Settings) :
    (∃ entity, (m.build settings names).1 = .ok entity ∧ m.Accepted settings names) ∨
    (∃ earlier port rest rejection, m.ports = earlier ++ port :: rest ∧
      Acceptable settings names (names.label m.name) earlier ∧
      Fails settings names (names.label m.name) earlier port rejection ∧
      (m.build settings names).1 = .error (.refused rejection)) ∨
    ∃ port ∈ m.ports, ∃ fault, port.Breaks names (names.label m.name) fault ∧
      (m.build settings names).1 = .error (.broken fault) := by
  have none : Acceptable settings names (names.label m.name) [] :=
    ⟨fun _ member => (by cases member), fun _ member => (by cases member), List.nodup_nil,
      fun _ member => (by cases member)⟩
  have tracks : (Progress.start m m.digest).Tracks names
      (([] : List Port).flatMap (Port.productions names settings.companionSuffix)) :=
    List.Forall₂.nil
  have verdict := Progress.takePorts_verdict (.refl names) tracks none entered.ports
  rw [build, buildWith_eq m m.digest (Names.text_label entered.name)]
  rcases verdict with ⟨next, after, taken, acceptable⟩ |
    ⟨before, port, rest, rejection, split, acceptable, fails, refused⟩ |
    ⟨port, member, fault, breaks, broken⟩
  · refine .inl ⟨next.entity, ?_, acceptable⟩
    rw [taken]
    rfl
  · refine .inr (.inl ⟨before, port, rest, rejection, split, acceptable, fails, ?_⟩)
    rw [refused]
    rfl
  · refine .inr (.inr ⟨port, member, fault, breaks, ?_⟩)
    rw [broken]
    rfl

/-- No fault is met if the initializers of outputs have all their words. -/
theorem build_verdict (entered : m.Entered names) (readable : m.Readable) (settings : Settings) :
    (∃ entity, (m.build settings names).1 = .ok entity ∧ m.Accepted settings names) ∨
    ∃ earlier port rest rejection, m.ports = earlier ++ port :: rest ∧
      Acceptable settings names (names.label m.name) earlier ∧
      Fails settings names (names.label m.name) earlier port rejection ∧
      (m.build settings names).1 = .error (.refused rejection) := by
  rcases build_outcome entered settings with built | refused | ⟨port, member, fault, breaks, _⟩
  · exact .inl built
  · exact .inr refused
  · obtain ⟨type, initializer, output, _, initialized, broken⟩ := breaks
    have complete := readable port member output initializer initialized
    exact absurd broken ((Expression.fit_safe complete _ _).unbroken fault)

theorem unbroken_build (entered : m.Entered names) (readable : m.Readable) (settings : Settings) :
    (m.build settings names).1.Unbroken := by
  rcases build_verdict entered readable settings with ⟨entity, built, _⟩ |
    ⟨_, _, _, rejection, _, _, _, refused⟩
  · rw [built]
    exact Attempt.unbroken_ok entity
  · rw [refused]
    exact Attempt.unbroken_refuse rejection

/-- A module has an entity exactly if it is accepted. Otherwise the first port that fails, after
ports that are acceptable, decides what is reported, and the report names it. Initializers of input
ports are not looked at. -/
theorem build_ok_iff_accepted (entered : m.Entered names) (readable : m.Readable)
    (settings : Settings) :
    ((∃ entity, (m.build settings names).1 = .ok entity) ↔ m.Accepted settings names) ∧
      (¬ m.Accepted settings names →
        ∃ earlier port rest rejection, m.ports = earlier ++ port :: rest ∧
          Acceptable settings names (names.label m.name) earlier ∧
          Fails settings names (names.label m.name) earlier port rejection ∧
          (m.build settings names).1 = .error (.refused rejection) ∧
          rejection.site? = some ⟨names.label m.name, names.label port.name, port.span⟩) ∧
      m.build settings names =
        ((m.withoutInputInitializers.build settings names).1.map (·.withDigest m.digest),
          (m.withoutInputInitializers.build settings names).2) := by
  refine ⟨?_, ?_, build_withoutInputInitializers m settings names⟩
  · rcases build_verdict entered readable settings with ⟨entity, built, accepted⟩ |
      ⟨earlier, port, rest, rejection, split, _, fails, refused⟩
    · exact ⟨fun _ => accepted, fun _ => ⟨entity, built⟩⟩
    · constructor
      · rintro ⟨entity, built⟩
        cases refused.symm.trans built
      · intro accepted
        rw [Accepted, split, ← List.singleton_append, ← List.append_assoc] at accepted
        exact absurd accepted.prefix fails.not_acceptable
  · intro unaccepted
    rcases build_verdict entered readable settings with ⟨_, _, accepted⟩ |
      ⟨earlier, port, rest, rejection, split, acceptable, fails, refused⟩
    · exact absurd accepted unaccepted
    · exact ⟨earlier, port, rest, rejection, split, acceptable, fails, refused, fails.site⟩

/-- A port that goes both ways is accepted with a suffix and collides with itself without one. -/
theorem build_ok_iff_accepted_twoWay :
    (∃ entity, ((Sample.twoWay .bit).build {} Sample.table).1 = .ok entity) ∧
      ∃ rejection, ((Sample.twoWay .bit).build { companionSuffix := "" } Sample.table).1 =
          .error (.refused rejection) ∧
        rejection.site? = some ⟨"B", "z", .dummy⟩ := by
  have entered := Sample.entered_twoWay .bit
  have readable := Sample.readable_twoWay .bit
  have accepted : (Sample.twoWay .bit).Accepted {} Sample.table := by
    refine ⟨?_, ?_, by decide, ?_⟩
    · intro port member
      rw [List.mem_singleton.mp member]
      exact ⟨.bit, rfl⟩
    · intro port member _
      rw [List.mem_singleton.mp member]
    · intro port member output
      rw [List.mem_singleton.mp member] at output
      cases output
  have unaccepted : ¬ (Sample.twoWay .bit).Accepted { companionSuffix := "" } Sample.table := by
    intro accepted
    have distinct : ["z", "z"].Nodup := accepted.distinct
    simp at distinct
  refine ⟨(build_ok_iff_accepted entered readable {}).1.mpr accepted, ?_⟩
  obtain ⟨earlier, port, rest, rejection, split, _, _, refused, site⟩ :=
    (build_ok_iff_accepted entered readable { companionSuffix := "" }).2.1 unaccepted
  refine ⟨rejection, refused, ?_⟩
  have only : port = ⟨⟨1⟩, .inout, .bit, none, .dummy⟩ := by
    have member : port ∈ (Sample.twoWay .bit).ports := by
      rw [split]
      exact List.mem_append_right _ List.mem_cons_self
    exact List.mem_singleton.mp member
  rw [site, only]
  rfl

end Module

end HdlPorts
