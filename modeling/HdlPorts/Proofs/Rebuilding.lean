import HdlPorts.Elaboration.Build
import HdlPorts.Proofs.Naming

/-! Building a module again.

A build reads the table of names and may enter names into it. Once they are in, building the same
module again ends the same way, keys included, and enters nothing, however much the table has grown
since. This is why an entity can be kept in place of a second build.
-/

set_option autoImplicit false

namespace HdlPorts

open Attempt (Persists Unbroken)

variable {settings : Settings} {moduleName : String} {names later : Names}

namespace Port

theorem split_input {port : Port} (direction : port.direction = .input) (type : SignalType)
    (suffix : String) (names : Names) :
    port.split type suffix names =
      .ok (⟨some (.input port.name type port.span), none⟩, names) := by
  rw [split, direction]

theorem split_output {port : Port} (direction : port.direction = .output) (type : SignalType)
    (suffix : String) (names : Names) :
    port.split type suffix names =
      .ok (⟨none, some (.output port.name type port.span)⟩, names) := by
  rw [split, direction]

theorem split_inout {port : Port} (direction : port.direction = .inout) {text : String}
    (found : names.text port.name = .ok text) (type : SignalType) (suffix : String) :
    port.split type suffix names =
      .ok (⟨some (.input port.name type port.span),
        some (.companion (names.intern (companionName text suffix)).1 port.name type port.span)⟩,
        (names.intern (companionName text suffix)).2) := by
  simp only [split, direction, found, bind, Except.bind]
  rfl

/-- A port that was split has its own name in the table if it is an inout. -/
theorem text_of_split {port : Port} {type : SignalType} {suffix : String}
    {result : Halves × Names} (direction : port.direction = .inout)
    (done : port.split type suffix names = .ok result) :
    ∃ text, names.text port.name = .ok text := by
  rw [split, direction] at done
  obtain ⟨text, found, _⟩ := ok_of_bind done
  exact ⟨text, found⟩

theorem grows_split {port : Port} {type : SignalType} {suffix : String} {halves : Halves}
    {after : Names} (done : port.split type suffix names = .ok (halves, after)) :
    names.Grows after := by
  cases direction : port.direction with
  | input =>
    rw [split_input direction] at done
    cases done
    exact .refl names
  | output =>
    rw [split_output direction] at done
    cases done
    exact .refl names
  | inout =>
    obtain ⟨text, found⟩ := text_of_split direction done
    rw [split_inout direction found] at done
    cases done
    exact names.grows_intern _

/-- A port that was split gives the same signals again, since its companion is in the table. -/
theorem split_again {port : Port} {type : SignalType} {suffix : String} {halves : Halves}
    {after : Names} (done : port.split type suffix names = .ok (halves, after))
    (grows : after.Grows later) : port.split type suffix later = .ok (halves, later) := by
  have whole := (grows_split done).trans grows
  cases direction : port.direction with
  | input =>
    rw [split_input direction] at done ⊢
    cases done
    rfl
  | output =>
    rw [split_output direction] at done ⊢
    cases done
    rfl
  | inout =>
    -- The companion was entered the first time. Now it is found.
    obtain ⟨text, found⟩ := text_of_split direction done
    rw [split_inout direction found] at done
    cases done
    rw [split_inout direction (whole.text_ok found), grows.intern]

theorem plan_persists (settings : Settings) (moduleName : String) (port : Port)
    (grows : names.Grows later) :
    (port.plan settings moduleName names).Persists (port.plan settings moduleName later) :=
  (grows.text_persists port.name).bind fun _ => .refl _

end Port

namespace Progress

variable {progress : Progress}

theorem claim_persists (progress : Progress) (grows : names.Grows later) (site : Site)
    (port : Port) (name : Name) :
    (progress.claim names site port name).Persists (progress.claim later site port name) := by
  unfold claim
  cases progress.claimant? name with
  | none => exact .refl _
  | some first =>
    exact (grows.text_persists name).bind fun _ =>
      (grows.text_persists first.port).bind fun _ => .refl _

theorem takeInput_persists (progress : Progress) (grows : names.Grows later) (site : Site)
    (port : Port) (half : Option Signal) :
    (progress.takeInput names site port half).Persists
      (progress.takeInput later site port half) := by
  cases half with
  | none => exact .refl _
  | some signal => exact (progress.claim_persists grows site port signal.name).bind fun _ => .refl _

theorem takeOutput_persists (progress : Progress) (grows : names.Grows later) (site : Site)
    (port : Port) (origin : Origin) (half : Option Signal) :
    (progress.takeOutput names site port origin half).Persists
      (progress.takeOutput later site port origin half) := by
  cases half with
  | none => exact .refl _
  | some signal => exact (progress.claim_persists grows site port signal.name).bind fun _ => .refl _

theorem takeHalves_persists (progress : Progress) (grows : names.Grows later) (site : Site)
    (port : Port) (origin : Origin) (halves : Halves) :
    (progress.takeHalves names site port origin halves).Persists
      (progress.takeHalves later site port origin halves) :=
  (progress.takeInput_persists grows site port halves.input).bind fun next =>
    next.takeOutput_persists grows site port origin halves.output

theorem finish_persists (progress : Progress) (grows : names.Grows later) (span : Span) :
    (progress.finish moduleName span names).Persists
      (progress.finish moduleName span later) := by
  unfold finish
  split
  · exact .refl _
  · exact .refl _
  · exact (grows.text_persists _).bind fun _ => .refl _
  · exact .refl _

theorem grows_takePort (settings : Settings) (moduleName : String) (progress : Progress)
    (port : Port) (names : Names) :
    names.Grows (takePort settings moduleName progress port names).2 := by
  unfold takePort
  split
  · exact .refl names
  · split
    · exact .refl names
    · next done => exact Port.grows_split done

theorem grows_takePorts (settings : Settings) (moduleName : String) (progress : Progress)
    (ports : List Port) (names : Names) :
    names.Grows (takePorts settings moduleName progress ports names).2 := by
  induction ports generalizing progress names with
  | nil => exact .refl names
  | cons port rest ih =>
    have first := grows_takePort settings moduleName progress port names
    unfold takePorts
    split
    · next taken => rwa [taken] at first
    · next taken =>
      rw [taken] at first
      exact first.trans (ih _ _)

/-- A port that was taken or refused ends the same way in any later table. -/
theorem takePort_again {port : Port} {result : Attempt Rejection Progress} {after : Names}
    (taken : takePort settings moduleName progress port names = (result, after))
    (unbroken : result.Unbroken) (grows : after.Grows later) :
    takePort settings moduleName progress port later = (result, later) := by
  -- Whatever was read the first time is still there to be read.
  have whole : names.Grows later := by
    have first := grows_takePort settings moduleName progress port names
    rw [taken] at first
    exact first.trans grows
  have plans := port.plan_persists settings moduleName whole
  unfold takePort at taken ⊢
  cases plan : port.plan settings moduleName names with
  | error stop =>
    simp only [plan] at taken
    cases taken
    rw [plans (plan ▸ fun fault same => unbroken fault (by rw [Except.error.inj same])), plan]
  | ok plan' =>
    rw [plans (plan ▸ Attempt.unbroken_ok plan'), plan]
    simp only [plan] at taken ⊢
    cases split : port.split plan'.type settings.companionSuffix names with
    | error fault =>
      simp only [split] at taken
      cases taken
      exact absurd rfl (unbroken fault)
    | ok done =>
      obtain ⟨halves, middle⟩ := done
      simp only [split] at taken
      cases taken
      simp only [Port.split_again split grows]
      rw [progress.takeHalves_persists grows plan'.site port plan'.origin halves unbroken]

theorem takePorts_again {ports : List Port} {result : Attempt Rejection Progress} {after : Names}
    (taken : takePorts settings moduleName progress ports names = (result, after))
    (unbroken : result.Unbroken) (grows : after.Grows later) :
    takePorts settings moduleName progress ports later = (result, later) := by
  induction ports generalizing progress names with
  | nil =>
    cases taken
    rfl
  | cons port rest ih =>
    unfold takePorts at taken ⊢
    cases one : takePort settings moduleName progress port names with
    | mk first middle =>
      cases first with
      | error stop =>
        simp only [one] at taken
        cases taken
        rw [takePort_again one (fun fault same => unbroken fault (by rw [Except.error.inj same]))
          grows]
      | ok next =>
        simp only [one] at taken
        -- The first port is taken again in the table that the others have left.
        have tail : middle.Grows later := by
          have others := grows_takePorts settings moduleName next rest middle
          rw [taken] at others
          exact others.trans grows
        rw [takePort_again one (Attempt.unbroken_ok next) tail]
        exact ih taken

end Progress

namespace Module

variable {digest : Digest}

theorem grows_buildWith (m : Module) (digest : Digest) (settings : Settings) (names : Names) :
    names.Grows (m.buildWith digest settings names).2 := by
  unfold buildWith
  split
  · exact .refl names
  · next moduleName _ =>
    have ports := Progress.grows_takePorts settings moduleName (.start m digest) m.ports names
    split
    · next taken => rwa [taken] at ports
    · next taken => rwa [taken] at ports

theorem grows_of_build {m : Module} {result : Attempt Rejection Entity} {after : Names}
    (built : m.buildWith digest settings names = (result, after)) : names.Grows after := by
  have grows := m.grows_buildWith digest settings names
  rwa [built] at grows

/-- A build that met no fault ends the same way in any later table and enters nothing there. -/
theorem buildWith_again {m : Module} {result : Attempt Rejection Entity} {after : Names}
    (built : m.buildWith digest settings names = (result, after))
    (unbroken : result.Unbroken) (grows : after.Grows later) :
    m.buildWith digest settings later = (result, later) := by
  have whole := (grows_of_build built).trans grows
  unfold buildWith at built ⊢
  cases text : names.text? m.name with
  | none =>
    simp only [Names.text, text] at built
    cases built
    exact absurd rfl (unbroken .unknownName)
  | some moduleName =>
    simp only [Names.text, text, whole.text? text] at built ⊢
    cases taken : Progress.takePorts settings moduleName (.start m digest) m.ports names with
    | mk ports middle =>
      cases ports with
      | error stop =>
        simp only [taken] at built
        cases built
        rw [Progress.takePorts_again taken
          (fun fault same => unbroken fault (by rw [Except.error.inj same])) grows]
      | ok progress =>
        simp only [taken] at built
        cases built
        rw [Progress.takePorts_again taken (Attempt.unbroken_ok progress) grows]
        simp only
        rw [progress.finish_persists grows m.span unbroken]

end Module

end HdlPorts
