import HdlPorts.Proofs.EntityRules
import HdlPorts.Proofs.Evaluation
import HdlPorts.Proofs.Rebuilding

/-! The port loop keeps the rules of an entity.

A claim is made for every signal, and only for a name that nothing has claimed. So the names that
are claimed are those on the boundary, and the last check of a build passes whatever the ports are.
-/

set_option autoImplicit false

namespace HdlPorts

variable {settings : Settings} {moduleName : String} {names after : Names}

theorem Port.role_of_split {port : Port} {type : SignalType} {suffix : String} {halves : Halves}
    {signal : Signal} (done : port.split type suffix names = .ok (halves, after))
    (output : halves.output = some signal) : signal.role = .output := by
  cases direction : port.direction with
  | input =>
    rw [split_input direction] at done
    cases done
    cases output
  | output =>
    rw [split_output direction] at done
    cases done
    cases output
    rfl
  | inout =>
    obtain ⟨text, found⟩ := text_of_split direction done
    rw [split_inout direction found] at done
    cases done
    cases output
    rfl

namespace Progress

variable {progress next : Progress} {site : Site} {port : Port} {origin : Origin}

/-- The entity keeps the rules, and the names on its boundary are those claimed. -/
structure Consistent (progress : Progress) : Prop where
  wellFormed : progress.entity.WellFormed
  claimed : (progress.entity.namesOf (progress.entity.inputs ++ progress.entity.outputs)).Perm
    (progress.claims.map (·.name))

theorem Consistent.fresh (consistent : progress.Consistent) {name : Name}
    (unclaimed : progress.Unclaimed name) :
    name ∉ progress.entity.namesOf (progress.entity.inputs ++ progress.entity.outputs) := by
  intro member
  obtain ⟨claim, claimed, same⟩ := List.mem_map.mp (consistent.claimed.mem_iff.mp member)
  exact unclaimed claim claimed same

theorem Consistent.withSignal (consistent : progress.Consistent) (port : Port) {signal : Signal}
    (unclaimed : progress.Unclaimed signal.name) :
    Consistent ⟨progress.entity.withSignal signal, progress.withClaim port signal.name⟩ where
  wellFormed := consistent.wellFormed.withSignal (consistent.fresh unclaimed)
  claimed := (consistent.wellFormed.boundary signal).trans (consistent.claimed.cons signal.name)

theorem Consistent.takeInput (consistent : progress.Consistent) {half : Option Signal}
    (done : progress.takeInput names site port half = .ok next) : next.Consistent := by
  cases half with
  | none =>
    cases done
    exact consistent
  | some signal =>
    obtain ⟨unclaimed, rfl⟩ := takeInput_cases done
    exact consistent.withSignal port unclaimed

theorem Consistent.takeOutput (consistent : progress.Consistent) {half : Option Signal}
    (role : ∀ signal, half = some signal → signal.role = .output)
    (done : progress.takeOutput names site port origin half = .ok next) : next.Consistent := by
  cases half with
  | none =>
    cases done
    exact consistent
  | some signal =>
    obtain ⟨unclaimed, drive, driven, rfl⟩ := takeOutput_cases done
    have larger : Consistent ⟨_, _⟩ := consistent.withSignal port unclaimed
    cases drive with
    | none => exact larger
    | some drive =>
      obtain ⟨target, width⟩ := Signal.drive?_cases driven
      obtain ⟨_, outputs, body⟩ := progress.entity.lists_withSignal signal
      refine ⟨larger.wellFormed.addDrive ?_ ?_ ?_, larger.claimed⟩
      · rw [target, outputs, if_pos (role signal rfl)]
        exact List.mem_append_right _ (List.mem_singleton.mpr rfl)
      · -- Older drives are on older outputs, and the slot of the new one was free.
        rw [target, body]
        intro member
        obtain ⟨older, member, same⟩ := List.mem_map.mp member
        have output := consistent.wellFormed.targets older member
        obtain ⟨_, found, _⟩ := consistent.wellFormed.outputs _ output
        rw [same, Entity.nextSlot_free] at found
        cases found
      · intro other found
        rw [target, Entity.signal?_nextSlot] at found
        cases found
        exact width

theorem Consistent.takePort (consistent : progress.Consistent)
    (done : takePort settings moduleName progress port names = (.ok next, after)) :
    next.Consistent := by
  obtain ⟨plan, halves, _, split, taken⟩ := takePort_cases done
  obtain ⟨middle, input, output⟩ := takeHalves_cases taken
  exact (consistent.takeInput input).takeOutput (fun _ => Port.role_of_split split) output

theorem Consistent.takePorts (consistent : progress.Consistent) {ports : List Port}
    (done : takePorts settings moduleName progress ports names = (.ok next, after)) :
    next.Consistent := by
  induction ports generalizing progress names with
  | nil =>
    cases done
    exact consistent
  | cons port rest ih =>
    obtain ⟨first, middle, one, others⟩ := takePorts_cons done
    exact ih (consistent.takePort one) others

theorem consistent_start (m : Module) (digest : Digest) : (start m digest).Consistent :=
  ⟨Entity.wellFormed_empty _ _ _, .refl _⟩

/-- The last check of a build passes. -/
theorem Consistent.finish (consistent : progress.Consistent) (moduleName : String) (span : Span)
    (names : Names) : progress.finish moduleName span names = .ok progress.entity := by
  rw [Progress.finish, Entity.check_eq_ok.mpr consistent.wellFormed]

end Progress

namespace Module

/-- A build is its port loop: the last check passes. -/
theorem buildWith_eq (m : Module) (digest : Digest) {moduleName : String}
    (found : names.text m.name = .ok moduleName) :
    m.buildWith digest settings names =
      ((Progress.takePorts settings moduleName (.start m digest) m.ports names).1.map (·.entity),
        (Progress.takePorts settings moduleName (.start m digest) m.ports names).2) := by
  unfold buildWith
  rw [found]
  simp only
  cases taken : Progress.takePorts settings moduleName (.start m digest) m.ports names with
  | mk result after =>
    cases result with
    | error stop => rfl
    | ok progress =>
      have consistent := (Progress.consistent_start m digest).takePorts taken
      exact congrArg (·, after) (consistent.finish moduleName m.span after)

end Module

end HdlPorts
