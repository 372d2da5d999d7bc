import HdlPorts.Proofs.Verdicts

/-! What a build enters into the table of names.

A build enters the names of companions and nothing else. A companion is entered when its port is
split, before anything is known about collisions, so a port that is turned down for a name has still
entered its companion, while one that is turned down for its type or its initializer has not. What
is entered stays, so building once more enters nothing and ends the same way.
-/

set_option autoImplicit false

namespace HdlPorts

variable {settings : Settings} {names middle after final : Names} {moduleName suffix : String}
  {port : Port} {ports more : List Port} {rejection : Rejection}

/-! ## Entering texts -/

namespace Names

/-- The table after these texts were entered one after another. -/
def enterAll (names : Names) (texts : List String) : Names :=
  texts.foldl (fun table text => (table.intern text).2) names

/-- Those of the texts that the table does not have, each once, in the order in which they come. -/
def missing (names : Names) (texts : List String) : List String :=
  (texts.filter (· ∉ names.texts)).eraseDups

theorem enterAll_append (names : Names) (texts further : List String) :
    names.enterAll (texts ++ further) = (names.enterAll texts).enterAll further :=
  List.foldl_append

theorem texts_intern (names : Names) (text : String) :
    (names.intern text).2.texts =
      if text ∈ names.texts then names.texts else names.texts ++ [text] := by
  unfold intern
  split <;> rfl

/-- Entering texts appends those that were missing. -/
theorem texts_enterAll (names : Names) (texts : List String) :
    (names.enterAll texts).texts = names.texts ++ names.missing texts := by
  induction texts generalizing names with
  | nil => simp [enterAll, missing]
  | cons text rest ih =>
    have step : names.enterAll (text :: rest) = (names.intern text).2.enterAll rest := rfl
    rw [step, ih, missing, missing, texts_intern]
    by_cases present : text ∈ names.texts
    · simp [present]
    · -- From here on the text is in the table, so no copy of it is entered again.
      have later : rest.filter (· ∉ names.texts ++ [text]) =
          (rest.filter (· ∉ names.texts)).filter (fun other => !other == text) := by
        rw [List.filter_filter]
        refine List.filter_congr fun other _ => ?_
        by_cases same : other = text <;> simp [same]
      rw [if_neg present, later, List.filter_cons_of_pos (by simpa using present),
        List.eraseDups_cons, List.append_assoc, List.singleton_append]

end Names

/-! ## Companions of ports -/

namespace Port

/-- The text that names the companion of the port. -/
def companionText (names : Names) (suffix : String) (port : Port) : String :=
  companionName (names.label port.name) suffix

/-- The port goes both ways and has a type of its own and no initializer, so it is split. -/
def isSplit (port : Port) : Bool :=
  port.direction == .inout && port.initializer.isNone && port.type.signalType.isOk

end Port

/-- The companions of those ports that go both ways, in order. -/
def companionTexts (names : Names) (suffix : String) (ports : List Port) : List String :=
  (ports.filter (·.direction == .inout)).map (Port.companionText names suffix)

theorem companionTexts_append (names : Names) (suffix : String) (ports more : List Port) :
    companionTexts names suffix (ports ++ more) =
      companionTexts names suffix ports ++ companionTexts names suffix more := by
  simp [companionTexts]

theorem companionTexts_side (names : Names) (suffix : String) (side : port.direction ≠ .inout) :
    companionTexts names suffix [port] = [] := by
  simp [companionTexts, side]

theorem companionTexts_inout (names : Names) (suffix : String) (inout : port.direction = .inout) :
    companionTexts names suffix [port] = [port.companionText names suffix] := by
  simp [companionTexts, inout]

/-! ## One port -/

namespace Port

/-- Splitting a port enters its companion, if it has one. -/
theorem split_enters {type : SignalType} {halves : Halves}
    (done : port.split type suffix names = .ok (halves, after)) (grows : after.Grows final) :
    after = names.enterAll (companionTexts final suffix [port]) := by
  have whole := (grows_split done).trans grows
  cases direction : port.direction with
  | input =>
    rw [companionTexts_side final suffix (by simp [direction])]
    rw [split_input direction] at done
    cases done
    rfl
  | output =>
    rw [companionTexts_side final suffix (by simp [direction])]
    rw [split_output direction] at done
    cases done
    rfl
  | inout =>
    obtain ⟨text, found⟩ := text_of_split direction done
    rw [companionTexts_inout final suffix direction, companionText,
      Names.label_of_text? (whole.text? (Names.text_eq_ok.mp found))]
    rw [split_inout direction found] at done
    cases done
    rfl

/-- A port that is good by itself is split if it goes both ways. -/
theorem isSplit_of_plan {plan : PortPlan}
    (planned : port.plan settings moduleName names = .ok plan) :
    port.isSplit = (port.direction == .inout) := by
  obtain ⟨_, _, resolved, placed⟩ := plan_cases planned (.refl names)
  unfold isSplit
  rw [resolved]
  unfold origin at placed
  cases direction : port.direction <;> cases initialized : port.initializer <;>
    simp [direction, initialized, Attempt.refuse, Except.isOk, Except.toBool] at placed ⊢

/-- A port that is turned down by itself is not split. -/
theorem isSplit_of_refused (refused : port.plan settings moduleName names =
    .error (.refused rejection)) : port.isSplit = false := by
  unfold plan at refused
  unfold isSplit
  cases found : names.text port.name with
  | error fault => simp [found, Attempt.ofChecked, bind, Except.bind] at refused
  | ok text =>
    cases resolved : port.type.signalType with
    | error text => simp [Except.isOk, Except.toBool]
    | ok type =>
      cases direction : port.direction <;> cases initialized : port.initializer <;>
        simp [found, Attempt.ofChecked, signalType, resolved, origin, direction, initialized, bind,
          Except.bind, pure, Except.pure] at refused ⊢

end Port

/-! ## Who is to blame -/

/-- Whatever is turned down is put down to the port. -/
def Attempt.Blames {α : Type} (site : Site) (attempt : Attempt Rejection α) : Prop :=
  ∀ rejection, attempt = .error (.refused rejection) → rejection.site? = some site

namespace Attempt

variable {α β : Type} {site : Site}

theorem blames_ok (value : α) : Blames site (.ok value) := by
  intro rejection refused
  cases refused

theorem blames_ofChecked (checked : Checked α) : Blames site (ofChecked checked) := by
  intro rejection refused
  cases checked <;> cases refused

theorem blames_refuse (blamed : rejection.site? = some site) :
    Blames site (refuse rejection : Attempt Rejection α) := by
  intro rejection refused
  cases refused
  exact blamed

theorem Blames.bind {attempt : Attempt Rejection α} {rest : α → Attempt Rejection β}
    (first : attempt.Blames site) (others : ∀ value, (rest value).Blames site) :
    (attempt >>= rest).Blames site := by
  cases attempt with
  | error stop =>
    intro rejection refused
    cases refused
    exact first rejection rfl
  | ok value => exact others value

end Attempt

open Attempt (Blames blames_ok blames_ofChecked blames_refuse)

theorem Signal.drive?_blames (signal : Signal) (target : SignalId) (origin : Origin)
    (site : Site) : (signal.drive? target origin site).Blames site := by
  cases origin with
  | undriven => exact blames_ok _
  | companion => exact blames_ok _
  | twoState => exact blames_ok _
  | declared initializer =>
    refine Blames.bind ?_ fun _ => blames_ok _
    intro rejection refused
    rcases Expression.fit_refused refused with ⟨_, rfl⟩ | ⟨_, rfl⟩ <;> rfl

namespace Progress

variable {progress next : Progress} {stop : Stop Rejection}

theorem claim_blames (progress : Progress) (names : Names) (site : Site) (port : Port)
    (name : Name) : (progress.claim names site port name).Blames site := by
  unfold claim
  cases progress.claimant? name with
  | none => exact blames_ok _
  | some first =>
    exact (blames_ofChecked _).bind fun _ => (blames_ofChecked _).bind fun _ => blames_refuse rfl

theorem takeHalves_blames (progress : Progress) (names : Names) (site : Site) (port : Port)
    (origin : Origin) (halves : Halves) :
    (progress.takeHalves names site port origin halves).Blames site := by
  refine Blames.bind ?_ fun middle => ?_
  · cases halves.input with
    | none => exact blames_ok _
    | some signal =>
      exact (progress.claim_blames names site port signal.name).bind fun _ => blames_ok _
  · cases halves.output with
    | none => exact blames_ok _
    | some signal =>
      refine (middle.claim_blames names site port signal.name).bind fun claimed => ?_
      refine (signal.drive?_blames _ origin site).bind fun drive => ?_
      cases drive <;> exact blames_ok _

end Progress

theorem Port.site_grows (holds : names.Holds port.name) (grows : names.Grows final) :
    port.site final moduleName = port.site names moduleName := by
  rw [site, site, Names.label_of_text? (grows.text? (Names.text?_label holds))]

theorem Port.plan_blames (settings : Settings) (moduleName : String) (port : Port)
    (grows : names.Grows final) :
    (port.plan settings moduleName names).Blames (port.site final moduleName) := by
  cases found : names.text port.name with
  | error fault =>
    intro rejection refused
    rw [plan, found] at refused
    cases refused
  | ok text =>
    have holds : names.Holds port.name :=
      (List.getElem?_eq_some_iff.mp (Names.text_eq_ok.mp found)).1
    rw [plan_eq holds (.refl names), site_grows holds grows]
    refine Blames.bind ?_ fun type => Blames.bind ?_ fun origin => blames_ok _
    · unfold signalType
      split
      · exact blames_ok _
      · exact blames_refuse rfl
    · unfold Port.origin
      split
      · exact blames_refuse rfl
      · exact blames_ok _
      · exact blames_ok _
      · exact blames_ok _

namespace Progress

variable {progress next : Progress} {stop : Stop Rejection}

/-! ## The port loop -/

/-- A port that was taken has entered its companion, if it has one. -/
theorem takePort_enters
    (done : takePort settings moduleName progress port names = (.ok next, after))
    (grows : after.Grows final) :
    after = names.enterAll (companionTexts final settings.companionSuffix [port]) := by
  obtain ⟨plan, halves, _, split, _⟩ := takePort_cases done
  exact Port.split_enters split grows

theorem takePorts_enters
    (done : takePorts settings moduleName progress ports names = (.ok next, after))
    (grows : after.Grows final) :
    after = names.enterAll (companionTexts final settings.companionSuffix ports) := by
  induction ports generalizing progress names with
  | nil =>
    cases done
    rfl
  | cons port rest ih =>
    obtain ⟨first, middle, one, others⟩ := takePorts_cons done
    have grown := grows_takePorts settings moduleName first rest middle
    rw [others] at grown
    rw [← List.singleton_append, companionTexts_append, Names.enterAll_append,
      ← takePort_enters one (grown.trans grows)]
    exact ih others

/-- A port that was turned down is named as the one to blame, and has entered its companion exactly
if it was split. -/
theorem takePort_refused
    (done : takePort settings moduleName progress port names = (.error (.refused rejection), after))
    (grows : after.Grows final) :
    rejection.site? = some (port.site final moduleName) ∧
      after = names.enterAll
        (companionTexts final settings.companionSuffix ([port].filter Port.isSplit)) := by
  unfold takePort at done
  cases planned : port.plan settings moduleName names with
  | error stop =>
    simp only [planned, Prod.mk.injEq, Except.error.injEq] at done
    obtain ⟨rfl, rfl⟩ := done
    rw [List.filter_singleton, Port.isSplit_of_refused planned]
    exact ⟨Port.plan_blames settings moduleName port grows rejection planned, rfl⟩
  | ok plan =>
    cases split : port.split plan.type settings.companionSuffix names with
    | error fault => simp [planned, split] at done
    | ok both =>
      obtain ⟨halves, middle⟩ := both
      simp only [planned, split, Prod.mk.injEq] at done
      obtain ⟨refused, rfl⟩ := done
      obtain ⟨_, site, _⟩ := Port.plan_cases planned ((Port.grows_split split).trans grows)
      have own : companionTexts final settings.companionSuffix ([port].filter Port.isSplit) =
          companionTexts final settings.companionSuffix [port] := by
        rw [List.filter_singleton, Port.isSplit_of_plan planned]
        by_cases inout : port.direction = .inout
        · rw [inout]
          rfl
        · rw [companionTexts_side final _ inout, beq_false_of_ne inout]
          rfl
      rw [own, ← site]
      exact ⟨progress.takeHalves_blames middle plan.site port plan.origin halves rejection refused,
        Port.split_enters split grows⟩

/-- Where the loop stops, it has taken the ports before and cannot take the port at hand. -/
theorem takePorts_stops
    (done : takePorts settings moduleName progress ports names = (.error stop, after)) :
    ∃ earlier port rest last middle, ports = earlier ++ port :: rest ∧
      takePorts settings moduleName progress earlier names = (.ok last, middle) ∧
      takePort settings moduleName last port middle = (.error stop, after) := by
  induction ports generalizing progress names with
  | nil => cases done
  | cons port rest ih =>
    cases taken : takePort settings moduleName progress port names with
    | mk result table =>
      cases result with
      | error reason =>
        rw [takePorts, taken] at done
        cases done
        exact ⟨[], port, rest, progress, names, rfl, rfl, taken⟩
      | ok next =>
        rw [takePorts_of_ok taken] at done
        obtain ⟨earlier, other, tail, last, middle, rfl, before, stopped⟩ := ih done
        refine ⟨port :: earlier, other, tail, last, middle, rfl, ?_, stopped⟩
        rw [takePorts_of_ok taken]
        exact before

theorem takePorts_append
    (done : takePorts settings moduleName progress ports names = (.ok next, middle)) :
    takePorts settings moduleName progress (ports ++ more) names =
      takePorts settings moduleName next more middle := by
  induction ports generalizing progress names with
  | nil =>
    cases done
    rfl
  | cons port rest ih =>
    obtain ⟨first, table, one, others⟩ := takePorts_cons done
    rw [List.cons_append, takePorts_of_ok one]
    exact ih others

/-! ## Once more -/

/-- A port that is taken or turned down once more, in the table that it has left, ends the same way
and enters nothing. This holds of faults too. -/
theorem takePort_repeats {result : Attempt Rejection Progress}
    (done : takePort settings moduleName progress port names = (result, after)) :
    takePort settings moduleName progress port after = (result, after) := by
  unfold takePort at done
  cases planned : port.plan settings moduleName names with
  | error stop =>
    simp only [planned, Prod.mk.injEq] at done
    obtain ⟨rfl, rfl⟩ := done
    rw [takePort, planned]
  | ok plan =>
    cases split : port.split plan.type settings.companionSuffix names with
    | error fault =>
      simp only [planned, split, Prod.mk.injEq] at done
      obtain ⟨rfl, rfl⟩ := done
      simp only [takePort, planned, split]
    | ok both =>
      obtain ⟨halves, middle⟩ := both
      simp only [planned, split, Prod.mk.injEq] at done
      obtain ⟨rfl, rfl⟩ := done
      have plans := Port.plan_persists settings moduleName port (Port.grows_split split)
      simp only [takePort, plans (planned ▸ Attempt.unbroken_ok plan), planned,
        Port.split_again split (.refl middle)]

theorem takePorts_repeats {result : Attempt Rejection Progress}
    (done : takePorts settings moduleName progress ports names = (result, after)) :
    takePorts settings moduleName progress ports after = (result, after) := by
  induction ports generalizing progress names with
  | nil =>
    cases done
    rfl
  | cons port rest ih =>
    cases taken : takePort settings moduleName progress port names with
    | mk first table =>
      cases first with
      | error stop =>
        rw [takePorts, taken] at done
        cases done
        rw [takePorts, takePort_repeats taken]
      | ok next =>
        rw [takePorts_of_ok taken] at done
        have grows := grows_takePorts settings moduleName next rest table
        rw [done] at grows
        rw [takePorts_of_ok (takePort_again taken (Attempt.unbroken_ok next) grows)]
        exact ih done

end Progress

/-! ## Builds -/

namespace Module

variable {m : Module} {result : Attempt Rejection Entity}

/-- The build ends at this port: the ports before it, taken by themselves, have an entity, and with
this one the module is turned down, for something that is put down to this port. -/
structure StopsAt (m : Module) (settings : Settings) (names after : Names) (rejection : Rejection)
    (earlier : List Port) (port : Port) : Prop where
  listed : ∃ rest, m.ports = earlier ++ port :: rest
  taken : ∃ entity, ({ m with ports := earlier }.build settings names).1 = .ok entity
  refused : ({ m with ports := earlier ++ [port] }.build settings names).1 =
    .error (.refused rejection)
  blamed : rejection.site? = some (port.site after (after.label m.name))

/-- Building a part of the ports is taking them. -/
theorem build_part (m : Module) (ports : List Port) (found : names.text m.name = .ok moduleName) :
    ({ m with ports }.build settings names).1 =
      (Progress.takePorts settings moduleName (.start m m.digest) ports names).1.map fun progress =>
        progress.entity.withDigest { m with ports }.digest := by
  have own : names.text ({ m with ports } : Module).name = .ok moduleName := found
  have start : Progress.start { m with ports } { m with ports }.digest =
    (Progress.start m m.digest).withDigest { m with ports }.digest := rfl
  rw [build, buildWith_eq _ _ own, start, Progress.takePorts_withDigest]
  cases (Progress.takePorts settings moduleName (.start m m.digest) ports names).1 <;> rfl

theorem build_repeats (built : m.build settings names = (result, after)) :
    m.build settings after = (result, after) := by
  have grows := grows_of_build built
  cases found : names.text m.name with
  | error fault =>
    rw [build, buildWith, found] at built
    cases built
    rw [build, buildWith, found]
  | ok moduleName =>
    rw [build, buildWith_eq m m.digest found] at built
    rw [build, buildWith_eq m m.digest (grows.text_ok found)]
    cases taken : Progress.takePorts settings moduleName (.start m m.digest) m.ports names with
    | mk ports table =>
      rw [taken] at built
      cases built
      rw [Progress.takePorts_repeats taken]

/-- A build enters companions and nothing else, and what was in the table before keeps its keys. A
build that gives an entity has entered the companions of all ports that go both ways, those that
were missing, each once and in the order of the ports. A build that is turned down at a port has
entered those of the ports before it, and the companion of the port at hand if that goes both ways
and has a type and no initializer. Whatever a build has ended in, one more ends in it again and
enters nothing. -/
theorem build_enters (built : m.build settings names = (result, after)) :
    (∀ name text, names.text? name = some text → after.text? name = some text) ∧
      (∀ entity, result = .ok entity →
        after.texts = names.texts ++
          names.missing (companionTexts after settings.companionSuffix m.ports)) ∧
      (∀ rejection, result = .error (.refused rejection) →
        ∃ earlier port, m.StopsAt settings names after rejection earlier port ∧
          after.texts = names.texts ++
            names.missing (companionTexts after settings.companionSuffix
              (earlier ++ [port].filter Port.isSplit))) ∧
      m.build settings after = (result, after) := by
  have grows := grows_of_build built
  refine ⟨fun _ _ found => grows.text? found, ?_, ?_, build_repeats built⟩
  · rintro entity rfl
    obtain ⟨moduleName, progress, _, taken, _⟩ := buildWith_cases built
    rw [← Names.texts_enterAll, ← Progress.takePorts_enters taken (.refl after)]
  · rintro rejection rfl
    cases found : names.text m.name with
    | error fault =>
      rw [build, buildWith, found] at built
      cases built
    | ok moduleName =>
      have own := Names.label_of_text? (grows.text? (Names.text_eq_ok.mp found))
      rw [build, buildWith_eq m m.digest found] at built
      cases taken : Progress.takePorts settings moduleName (.start m m.digest) m.ports names with
      | mk result table =>
        rw [taken] at built
        cases result with
        | ok progress => cases built
        | error stop =>
          cases built
          obtain ⟨earlier, port, rest, last, middle, split, before, stopped⟩ :=
            Progress.takePorts_stops taken
          obtain ⟨blamed, entered⟩ := Progress.takePort_refused stopped (.refl table)
          have further := Progress.grows_takePort settings moduleName last port middle
          rw [stopped] at further
          refine ⟨earlier, port, ⟨⟨rest, split⟩, ?_, ?_, own.symm ▸ blamed⟩, ?_⟩
          · exact ⟨_, by rw [build_part m earlier found, before]; rfl⟩
          · rw [build_part m (earlier ++ [port]) found, Progress.takePorts_append before,
              Progress.takePorts_of_error (congrArg Prod.fst stopped)]
            rfl
          · rw [companionTexts_append, ← Names.texts_enterAll, Names.enterAll_append,
              ← Progress.takePorts_enters before further]
            exact congrArg Names.texts entered

end Module

/-! ## A port that comes twice -/

namespace Sample

/-- Two ports that go both ways, and the first of them once more. -/
def repeating : Module :=
  ⟨⟨0⟩, [⟨⟨1⟩, .inout, .bit, none, .dummy⟩, ⟨⟨2⟩, .inout, .byte, none, .dummy⟩,
    ⟨⟨1⟩, .inout, .bit, none, .dummy⟩], .dummy⟩

def repeatingNames : Names := ⟨["M", "a", "b"], by decide⟩

theorem refused_repeating : (repeating.build {} repeatingNames).1 =
    .error (.refused (.nameCollision ⟨"M", "a", .dummy⟩ "a" "a" .dummy)) := by rfl

theorem texts_repeating :
    (repeating.build {} repeatingNames).2.texts = ["M", "a", "b", "a0", "b0"] := by rfl

end Sample

/-- The build stops at a port whose companion was entered before, so two companions are new. -/
theorem Module.build_enters_repeatedPort :
    ∃ rejection after,
      Sample.repeating.build {} Sample.repeatingNames = (.error (.refused rejection), after) ∧
      (∃ earlier port,
        Sample.repeating.StopsAt {} Sample.repeatingNames after rejection earlier port) ∧
      after.texts = Sample.repeatingNames.texts ++ ["a0", "b0"] ∧
      Sample.repeating.build {} after = (.error (.refused rejection), after) := by
  have built := Prod.ext Sample.refused_repeating
    (Eq.refl (Sample.repeating.build {} Sample.repeatingNames).2)
  obtain ⟨_, _, refused, again⟩ := Module.build_enters built
  obtain ⟨earlier, port, stops, _⟩ := refused _ rfl
  exact ⟨_, _, built, ⟨earlier, port, stops⟩, Sample.texts_repeating, again⟩

end HdlPorts
