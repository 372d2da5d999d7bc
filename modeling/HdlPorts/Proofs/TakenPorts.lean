import HdlPorts.Proofs.CompanionNames
import HdlPorts.Proofs.EntityChecks
import HdlPorts.Proofs.PackedForm

/-! What holds after each port that is taken.

The table of claims and the arena grow in step: a signal is stored right after its name was claimed,
so the table can be read off the arena, the last signal first. That ties each claim to a signal, and
the split ties the signal to a port. Together with the rules of an entity, which hold all along, it
follows that the last check of a build finds nothing, and that a module is never turned down for what
that check reports.
-/

set_option autoImplicit false

namespace HdlPorts

variable {settings : Settings} {names after : Names} {moduleName suffix : String}

/-- The claim made for a signal: a companion is claimed for the port that it comes from. -/
def Claim.of (signal : Signal) : Claim :=
  ⟨signal.name, signal.companionOf.getD signal.name, signal.span⟩

/-- Both halves of a port are claimed for that port. -/
theorem Port.claim_of_split {port : Port} {type : SignalType} {halves : Halves} {signal : Signal}
    (done : port.split type suffix names = .ok (halves, after))
    (half : halves.input = some signal ∨ halves.output = some signal) :
    Claim.of signal = ⟨signal.name, port.name, port.span⟩ := by
  cases direction : port.direction with
  | input =>
    rw [split_input direction] at done
    cases done
    obtain ⟨⟨⟩⟩ | ⟨⟨⟩⟩ := half
    rfl
  | output =>
    rw [split_output direction] at done
    cases done
    obtain ⟨⟨⟩⟩ | ⟨⟨⟩⟩ := half
    rfl
  | inout =>
    obtain ⟨text, found⟩ := text_of_split direction done
    rw [split_inout direction found] at done
    cases done
    obtain ⟨⟨⟩⟩ | ⟨⟨⟩⟩ := half <;> rfl

theorem Entity.mem_namesOf {entity : Entity} {ids : List SignalId} {name : Name} :
    name ∈ entity.namesOf ids ↔ ∃ id ∈ ids, entity.HasName name id := by
  simp only [namesOf, List.mem_filterMap, Option.map_eq_some_iff, HasName]

namespace Progress

variable {progress next : Progress} {site : Site} {port : Port} {origin : Origin}
  {ports : List Port} {claim : Claim}

/-! ## Claims and signals -/

/-- The claims are those of the stored signals, the last one first. -/
def Recorded (progress : Progress) : Prop :=
  progress.claims = (progress.entity.signals.items.map Claim.of).reverse

theorem Recorded.mem_claims (recorded : progress.Recorded) :
    claim ∈ progress.claims ↔
      ∃ id signal, progress.entity.signal? id = some signal ∧ Claim.of signal = claim := by
  rw [recorded, List.mem_reverse, List.mem_map]
  constructor
  · rintro ⟨signal, stored, same⟩
    obtain ⟨index, found⟩ := List.mem_iff_getElem?.mp stored
    exact ⟨⟨index⟩, signal, found, same⟩
  · rintro ⟨_, signal, found, same⟩
    exact ⟨signal, List.mem_of_getElem? found, same⟩

theorem Recorded.withSignal (recorded : progress.Recorded) {signal : Signal}
    (own : Claim.of signal = ⟨signal.name, port.name, port.span⟩) (drive : Option Drive) :
    Recorded ⟨(progress.entity.withSignal signal).withDrive? drive,
      progress.withClaim port signal.name⟩ := by
  unfold Recorded
  rw [(Entity.lists_withDrive? _ drive).1, Entity.items_withSignal, List.map_append,
    List.reverse_append, ← recorded, withClaim, ← own]
  rfl

theorem Recorded.takeInput (recorded : progress.Recorded) {half : Option Signal}
    (own : ∀ signal, half = some signal → Claim.of signal = ⟨signal.name, port.name, port.span⟩)
    (done : progress.takeInput names site port half = .ok next) : next.Recorded := by
  cases half with
  | none =>
    cases done
    exact recorded
  | some signal =>
    obtain ⟨_, rfl⟩ := takeInput_cases done
    exact recorded.withSignal (own signal rfl) none

theorem Recorded.takeOutput (recorded : progress.Recorded) {half : Option Signal}
    (own : ∀ signal, half = some signal → Claim.of signal = ⟨signal.name, port.name, port.span⟩)
    (done : progress.takeOutput names site port origin half = .ok next) : next.Recorded := by
  cases half with
  | none =>
    cases done
    exact recorded
  | some signal =>
    obtain ⟨_, drive, _, rfl⟩ := takeOutput_cases done
    exact recorded.withSignal (own signal rfl) drive

theorem Recorded.takePort (recorded : progress.Recorded)
    (done : takePort settings moduleName progress port names = (.ok next, after)) :
    next.Recorded := by
  obtain ⟨plan, halves, _, split, taken⟩ := takePort_cases done
  obtain ⟨middle, input, output⟩ := takeHalves_cases taken
  have first := recorded.takeInput (fun _ half => Port.claim_of_split split (.inl half)) input
  exact first.takeOutput (fun _ half => Port.claim_of_split split (.inr half)) output

theorem Recorded.takePorts (recorded : progress.Recorded)
    (done : takePorts settings moduleName progress ports names = (.ok next, after)) :
    next.Recorded := by
  induction ports generalizing progress names with
  | nil =>
    cases done
    exact recorded
  | cons port rest ih =>
    obtain ⟨first, middle, one, others⟩ := takePorts_cons done
    exact ih (recorded.takePort one) others

/-! ## After each port -/

/-- The slot has a half of the port and is listed on its side, an output together with its drive. -/
def HasHalf (progress : Progress) (settings : Settings) (names : Names) (moduleName : String)
    (port : Port) (id : SignalId) : Prop :=
  (id ∈ progress.entity.inputs ∧ progress.entity.HasInput port id) ∨
    (id ∈ progress.entity.outputs ∧ progress.entity.HasOutput settings names moduleName port id)

/-- What holds once some ports are taken: the entity passes the check; the names claimed are those of
the listed signals, each claimed once and for the port, and its place, that the signal came from; and
what drives an output is packed and as wide. -/
structure Kept (settings : Settings) (names : Names) (moduleName : String) (taken : List Port)
    (progress : Progress) : Prop where
  checked : progress.entity.check = .ok ()
  keys : ∀ name, name ∈ progress.claims.map (·.name) ↔
    ∃ id ∈ progress.entity.inputs ++ progress.entity.outputs, progress.entity.HasName name id
  distinct : (progress.claims.map (·.name)).Nodup
  producers : ∀ claim ∈ progress.claims, ∃ port ∈ taken,
    claim.port = port.name ∧ claim.span = port.span ∧
      ∃ id, progress.entity.HasName claim.name id ∧
        progress.HasHalf settings names moduleName port id
  values : ∀ drive ∈ progress.entity.body, drive.value.Packed ∧
    ∃ target, progress.entity.signal? drive.target = some target ∧
      drive.value.width = target.type.width.toNat

/-- The claim of a slot that has a half of a port is made for that port. -/
theorem HasHalf.claim_of {id : SignalId} {signal : Signal}
    (half : progress.HasHalf settings names moduleName port id)
    (found : progress.entity.signal? id = some signal) :
    Claim.of signal = ⟨signal.name, port.name, port.span⟩ := by
  rcases half with ⟨_, type, _, stored⟩ | ⟨_, type, _, stored, _⟩
  · cases found.symm.trans stored
    rfl
  · cases stored with
    | output _ stored =>
      cases found.symm.trans stored
      rfl
    | companion _ _ stored _ =>
      cases found.symm.trans stored
      rfl

/-- Every slot has a half of one of the ports. -/
theorem hasHalf_of_splits {id : SignalId} {signal : Signal}
    (splits : progress.entity.Splits settings names moduleName (ports.filter Port.hasInput)
      (ports.filter Port.hasOutput))
    (found : progress.entity.signal? id = some signal) :
    ∃ port ∈ ports, progress.HasHalf settings names moduleName port id := by
  have stored : id ∈ (List.range progress.entity.signals.size).map Slot.mk :=
    List.mem_map.mpr ⟨id.index, List.mem_range.mpr (List.getElem?_eq_some_iff.mp found).1, rfl⟩
  rcases List.mem_append.mp (splits.slots.mem_iff.mpr stored) with input | output
  · obtain ⟨port, listed, half⟩ := exists_of_forall₂ splits.inputs input
    exact ⟨port, (List.mem_filter.mp listed).1, .inl ⟨input, half⟩⟩
  · obtain ⟨port, listed, half⟩ := exists_of_forall₂ splits.outputs output
    exact ⟨port, (List.mem_filter.mp listed).1, .inr ⟨output, half⟩⟩

theorem kept_of_taken {m : Module} {digest : Digest}
    (done : takePorts settings moduleName (start m digest) ports names = (.ok progress, after)) :
    progress.Kept settings after moduleName ports := by
  have consistent := (consistent_start m digest).takePorts done
  have empty : (start m digest).Recorded := rfl
  have recorded := empty.takePorts done
  have splits := splits_takePorts (splits_start m digest) done (.refl after)
  rw [List.nil_append, List.nil_append] at splits
  have wellFormed := consistent.wellFormed
  refine ⟨Entity.check_eq_ok.mpr wellFormed, ?_, ?_, ?_, ?_⟩
  · intro name
    rw [← consistent.claimed.mem_iff]
    exact Entity.mem_namesOf
  · exact consistent.claimed.nodup_iff.mp wellFormed.names
  · -- A claim is that of a stored signal, and the split tells which port the signal is from.
    intro claim member
    obtain ⟨id, signal, found, rfl⟩ := recorded.mem_claims.mp member
    obtain ⟨port, listed, half⟩ := hasHalf_of_splits splits found
    have own := half.claim_of found
    exact ⟨port, listed, congrArg Claim.port own, congrArg Claim.span own, id,
      ⟨signal, found, rfl⟩, half⟩
  · intro drive member
    obtain ⟨target, found, _⟩ := wellFormed.outputs _ (wellFormed.targets drive member)
    exact ⟨LogicVector.packed_iff_tidy.mpr (splits.tidy drive member), target, found,
      wellFormed.widths drive member target found⟩

end Progress

namespace Module

/-- What a module is turned down for is put down to one of its ports. -/
theorem site?_of_refused {m : Module} {digest : Digest} {rejection : Rejection}
    (refused : (m.buildWith digest settings names).1 = .refuse rejection) :
    ∃ site, rejection.site? = some site := by
  cases found : names.text m.name with
  | error fault =>
    rw [buildWith, found] at refused
    cases refused
  | ok moduleName =>
    rw [buildWith_eq m digest found] at refused
    cases taken : Progress.takePorts settings moduleName (.start m digest) m.ports names with
    | mk result after =>
      rw [taken] at refused
      cases result with
      | ok progress => cases refused
      | error stop =>
        cases refused
        obtain ⟨_, port, _, _, _, _, _, stopped⟩ := Progress.takePorts_stops taken
        exact ⟨_, (Progress.takePort_refused stopped (.refl after)).1⟩

/-- The loop over the ports keeps the rules of an entity and its table of names after each port that
it takes, and goes on from there. So the last check passes wherever the loop would end, and a module
is turned down neither for a name that is used twice on the boundary nor for a malformed entity. -/
theorem loop_keeps_rules (m : Module) (digest : Digest) (settings : Settings) (names : Names) :
    (∀ moduleName taken rest progress after, m.ports = taken ++ rest →
      Progress.takePorts settings moduleName (.start m digest) taken names =
        (.ok progress, after) →
      progress.Kept settings after moduleName taken ∧
        (∀ span later, progress.finish moduleName span later = .ok progress.entity) ∧
        Progress.takePorts settings moduleName (.start m digest) m.ports names =
          Progress.takePorts settings moduleName progress rest after) ∧
    (∀ moduleName text span,
      (m.buildWith digest settings names).1 ≠ .refuse (.duplicateName moduleName text span)) ∧
    ∀ message, (m.buildWith digest settings names).1 ≠ .refuse (.internal message) := by
  refine ⟨?_, ?_, ?_⟩
  · intro moduleName taken rest progress after split done
    have consistent := (Progress.consistent_start m digest).takePorts done
    refine ⟨Progress.kept_of_taken done, consistent.finish moduleName, ?_⟩
    rw [split, Progress.takePorts_append done]
  · -- What the last check reports is about the module and not about one of its ports.
    intro moduleName text span refused
    obtain ⟨site, named⟩ := site?_of_refused refused
    cases named
  · intro message refused
    obtain ⟨site, named⟩ := site?_of_refused refused
    cases named

/-- After the first two of its ports the module with a port of each kind has claimed three names. -/
theorem loop_keeps_rules_boundary :
    ∃ progress after, Progress.takePorts {} "M" (.start Sample.boundary (.ofBytes []))
        (Sample.boundary.ports.take 2) Sample.boundaryNames = (.ok progress, after) ∧
      progress.Kept {} after "M" (Sample.boundary.ports.take 2) ∧
      progress.claims.map (·.name) = [⟨6⟩, ⟨2⟩, ⟨1⟩] := by
  refine ⟨_, _, rfl, ?_, rfl⟩
  exact ((Sample.boundary.loop_keeps_rules (.ofBytes []) {} Sample.boundaryNames).1 "M" _
    (Sample.boundary.ports.drop 2) _ _ rfl rfl).1

end Module

end HdlPorts
