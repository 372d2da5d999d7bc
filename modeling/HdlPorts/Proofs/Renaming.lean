import HdlPorts.Netlist.Listing
import HdlPorts.Proofs.Verdicts

/-! One build in two tables.

Two tables may have entered the same texts in different orders, so that a companion is called by
different keys. A build does not notice: what it compares and what it reports are texts. In two such
tables it ends in the same rejection, or in entities that differ at most in the keys of companions,
and it enters the same texts.
-/

set_option autoImplicit false

namespace HdlPorts

namespace Names

variable {base names others after later : Names} {name other : Name}

/-- The names stand for the same text, each in its own table. -/
def SameText (names others : Names) (name other : Name) : Prop :=
  ∃ text, names.text? name = some text ∧ others.text? other = some text

theorem SameText.grows (same : names.SameText others name other) (grows : names.Grows after)
    (grows' : others.Grows later) : after.SameText later name other := by
  obtain ⟨text, own, own'⟩ := same
  exact ⟨text, grows.text? own, grows'.text? own'⟩

theorem SameText.symm (same : names.SameText others name other) :
    others.SameText names other name := by
  obtain ⟨text, own, own'⟩ := same
  exact ⟨text, own', own⟩

theorem SameText.trans {third : Name} (first : names.SameText others name other)
    (second : others.SameText later other third) : names.SameText later name third := by
  obtain ⟨text, own, middle⟩ := first
  obtain ⟨text', middle', own'⟩ := second
  cases middle.symm.trans middle'
  exact ⟨text, own, own'⟩

/-- A name of a common earlier table has kept its text in both. -/
theorem Holds.sameText (holds : base.Holds name) (grows : base.Grows names)
    (grows' : base.Grows others) : names.SameText others name name :=
  ⟨base.label name, grows.text? (text?_label holds), grows'.text? (text?_label holds)⟩

/-- Keys are told apart alike in both tables. -/
theorem SameText.eq_iff {name' other' : Name} (first : names.SameText others name other)
    (second : names.SameText others name' other') : name = name' ↔ other = other' := by
  obtain ⟨text, own, own'⟩ := first
  obtain ⟨text', further, further'⟩ := second
  constructor
  · rintro rfl
    cases own.symm.trans further
    exact eq_of_text? own' further'
  · rintro rfl
    cases own'.symm.trans further'
    exact eq_of_text? own further

theorem SameText.text (same : names.SameText others name other) :
    ∃ text, names.text name = .ok text ∧ others.text other = .ok text := by
  obtain ⟨text, own, own'⟩ := same
  exact ⟨text, text_eq_ok.mpr own, text_eq_ok.mpr own'⟩

/-- The table has grown by these texts. -/
structure Gains (names after : Names) (more : List String) : Prop where
  grows : names.Grows after
  texts : ∀ text, text ∈ after.texts ↔ text ∈ names.texts ∨ text ∈ more

theorem Gains.refl (names : Names) : names.Gains names [] := ⟨.refl names, fun text => by simp⟩

theorem Gains.trans {more further : List String} (first : names.Gains after more)
    (second : after.Gains later further) : names.Gains later (more ++ further) where
  grows := first.grows.trans second.grows
  texts text := by rw [second.texts, first.texts, List.mem_append, or_assoc]

theorem gains_intern (names : Names) (text : String) :
    names.Gains (names.intern text).2 [text] := by
  refine ⟨names.grows_intern text, fun other => ?_⟩
  unfold intern
  split
  · next present =>
    rw [List.mem_singleton]
    exact ⟨.inl, fun member => member.elim id fun same => same ▸ present⟩
  · exact List.mem_append

/-- Two computations that have entered the same texts end in things that are alike in the tables
they have left. -/
def InStep {α : Type} (names others : Names) (alike : Names → Names → α → α → Prop)
    (result result' : α × Names) : Prop :=
  ∃ more, names.Gains result.2 more ∧ others.Gains result'.2 more ∧
    alike result.2 result'.2 result.1 result'.1

end Names

/-! ## Alike up to keys -/

section Alike

variable (names others : Names)

/-- The signals are equal up to the key of the name, which may differ for a companion. -/
structure Signal.Alike (signal other : Signal) : Prop where
  spelled : names.SameText others signal.name other.name
  own : signal.isCompanion = false → other.name = signal.name
  same : other = { signal with name := other.name }

/-- The entities are equal up to the keys of companions. -/
structure Entity.Alike (entity other : Entity) : Prop where
  spelled : names.SameText others entity.name other.name
  signals : List.Forall₂ (Signal.Alike names others) entity.signals.items other.signals.items
  same : other = { entity with signals := other.signals }

structure Claim.Alike (claim other : Claim) : Prop where
  name : names.SameText others claim.name other.name
  port : names.SameText others claim.port other.port
  span : other.span = claim.span

structure Progress.Alike (progress other : Progress) : Prop where
  entity : progress.entity.Alike names others other.entity
  claims : List.Forall₂ (Claim.Alike names others) progress.claims other.claims

/-- Both attempts succeed alike, or both stop for the same reason. -/
def Attempt.Alike {α : Type} (alike : Names → Names → α → α → Prop) (names others : Names) :
    Attempt Rejection α → Attempt Rejection α → Prop :=
  Attempt.Related (alike names others) Eq

end Alike

variable {base names others after later third : Names}

theorem Signal.Alike.grows {signal other : Signal} (alike : signal.Alike names others other)
    (grows : names.Grows after) (grows' : others.Grows later) : signal.Alike after later other :=
  ⟨alike.spelled.grows grows grows', alike.own, alike.same⟩

theorem Signal.Alike.symm {signal other : Signal} (alike : signal.Alike names others other) :
    other.Alike others names signal := by
  refine ⟨alike.spelled.symm, fun side => ?_, ?_⟩
  · rw [alike.same] at side
    exact (alike.own side).symm
  · rw [alike.same]

theorem Signal.Alike.trans {signal other last : Signal} (first : signal.Alike names others other)
    (second : other.Alike others third last) : signal.Alike names third last := by
  refine ⟨first.spelled.trans second.spelled, fun side => ?_, ?_⟩
  · have side' : other.isCompanion = false := by
      rw [first.same]
      exact side
    exact (second.own side').trans (first.own side)
  · rw [second.same, first.same]

theorem forall₂_trans {α β γ : Type} {first : α → β → Prop} {second : β → γ → Prop}
    {both : α → γ → Prop} (each : ∀ a b c, first a b → second b c → both a c) {left : List α}
    {middle : List β} {right : List γ} (related : List.Forall₂ first left middle)
    (related' : List.Forall₂ second middle right) : List.Forall₂ both left right := by
  induction related generalizing right with
  | nil =>
    cases related'
    exact .nil
  | cons own _ ih =>
    cases related' with
    | cons own' others => exact .cons (each _ _ _ own own') (ih others)

namespace Entity

variable {entity other last : Entity} {signal signal' : Signal}

theorem Alike.grows (alike : entity.Alike names others other) (grows : names.Grows after)
    (grows' : others.Grows later) : entity.Alike after later other :=
  ⟨alike.spelled.grows grows grows', alike.signals.imp fun _ _ each => each.grows grows grows',
    alike.same⟩

theorem Alike.symm (alike : entity.Alike names others other) :
    other.Alike others names entity := by
  refine ⟨alike.spelled.symm, ?_, by rw [alike.same]⟩
  exact (alike.signals.imp fun _ _ each => each.symm).flip

theorem Alike.trans (first : entity.Alike names others other)
    (second : other.Alike others third last) : entity.Alike names third last := by
  refine ⟨first.spelled.trans second.spelled, ?_, by rw [second.same, first.same]⟩
  exact forall₂_trans (fun _ _ _ first second => first.trans second) first.signals second.signals

theorem Alike.nextSlot (alike : entity.Alike names others other) :
    other.nextSlot = entity.nextSlot :=
  congrArg Slot.mk alike.signals.length_eq.symm

theorem Alike.withSignal (alike : entity.Alike names others other)
    (same : signal.Alike names others signal') :
    (entity.withSignal signal).Alike names others (other.withSignal signal') := by
  have role : signal'.role = signal.role := by rw [same.same]
  have size : other.signals.size = entity.signals.size := alike.signals.length_eq.symm
  refine ⟨?_, ?_, ?_⟩
  · rw [(entity.sameHead_withSignal signal).name, (other.sameHead_withSignal signal').name]
    exact alike.spelled
  · rw [items_withSignal, items_withSignal]
    exact List.rel_append alike.signals (.cons same .nil)
  · unfold Entity.withSignal addSignal Arena.alloc
    rw [role, size]
    cases signal.role <;> simp only <;> rw [alike.same]

theorem Alike.withDrive? (alike : entity.Alike names others other) (drive : Option Drive) :
    (entity.withDrive? drive).Alike names others (other.withDrive? drive) := by
  cases drive with
  | none => exact alike
  | some drive =>
    refine ⟨?_, ?_, ?_⟩
    · exact alike.spelled
    · exact alike.signals
    · rw [Entity.withDrive?, alike.same]
      rfl

end Entity

/-- Results that are alike to one in a third table are alike. -/
theorem Attempt.Alike.join {result result' both : Attempt Rejection Entity}
    (first : Attempt.Alike Entity.Alike names third result both)
    (second : Attempt.Alike Entity.Alike others third result' both) :
    Attempt.Alike Entity.Alike names others result result' := by
  cases first with
  | ok alike =>
    cases second with
    | ok alike' => exact .ok (alike.trans alike'.symm)
  | refused same =>
    cases second with
    | refused same' => exact .refused (same.trans same'.symm)
  | broken =>
    cases second
    exact .broken

/-! ## The port loop in two tables -/

/-- A port is split into the same halves. Only the companion may get another key. -/
theorem Port.split_inStep {port : Port} (holds : base.Holds port.name) (grows : base.Grows names)
    (grows' : base.Grows others) (type : SignalType) (suffix : String) :
    ∃ more halves after halves' later,
      port.split type suffix names = .ok (halves, after) ∧
      port.split type suffix others = .ok (halves', later) ∧
      names.Gains after more ∧ others.Gains later more ∧
      Option.Rel (Signal.Alike after later) halves.input halves'.input ∧
      Option.Rel (Signal.Alike after later) halves.output halves'.output := by
  have own := holds.sameText grows grows'
  cases direction : port.direction with
  | input =>
    exact ⟨[], _, _, _, _, split_input direction .., split_input direction .., .refl _, .refl _,
      .some ⟨own, fun _ => rfl, rfl⟩, .none⟩
  | output =>
    exact ⟨[], _, _, _, _, split_output direction .., split_output direction .., .refl _, .refl _,
      .none, .some ⟨own, fun _ => rfl, rfl⟩⟩
  | inout =>
    have text := Names.text_label holds
    let companion := companionName (base.label port.name) suffix
    have gains := names.gains_intern companion
    have gains' := others.gains_intern companion
    refine ⟨[companion], _, _, _, _, split_inout direction (grows.text_ok text) type suffix,
      split_inout direction (grows'.text_ok text) type suffix, gains, gains', ?_, ?_⟩
    · exact .some ⟨own.grows gains.grows gains'.grows, fun _ => rfl, rfl⟩
    · -- Both tables have the companion's text by now.
      refine .some ⟨⟨companion, names.text?_intern companion, others.text?_intern companion⟩, ?_,
        rfl⟩
      intro side
      cases side

namespace Progress

variable {progress other : Progress} {site : Site} {port : Port} {origin : Origin}
  {name name' : Name}

theorem Alike.grows (alike : progress.Alike names others other) (grows : names.Grows after)
    (grows' : others.Grows later) : progress.Alike after later other :=
  ⟨alike.entity.grows grows grows', alike.claims.imp fun _ _ each =>
    ⟨each.name.grows grows grows', each.port.grows grows grows', each.span⟩⟩

theorem Alike.claimant? (alike : progress.Alike names others other)
    (same : names.SameText others name name') :
    Option.Rel (Claim.Alike names others) (progress.claimant? name) (other.claimant? name') := by
  unfold Progress.claimant?
  have claims := alike.claims
  generalize progress.claims = left at claims
  generalize other.claims = right at claims
  -- Both lists are searched in step, since keys are told apart alike.
  induction claims with
  | nil => exact .none
  | @cons claim claim' left right own _ ih =>
    have hit : (claim.name == name) = (claim'.name == name') := by
      rw [Bool.eq_iff_iff, beq_iff_eq, beq_iff_eq]
      exact own.name.eq_iff same
    rw [List.find?_cons, List.find?_cons, hit]
    cases claim'.name == name' with
    | true => exact .some own
    | false => exact ih

/-- Both claims go through, or both are refused in the same words. -/
theorem Alike.claim (alike : progress.Alike names others other)
    (same : names.SameText others name name')
    (own : names.SameText others port.name port.name) :
    Attempt.Alike Progress.Alike names others (progress.claim names site port name)
      (other.claim others site port name') := by
  have found := alike.claimant? same
  unfold Progress.claim
  generalize progress.claimant? name = first at found
  generalize other.claimant? name' = first' at found
  cases found with
  | none => exact .ok ⟨alike.entity, .cons ⟨same, own, rfl⟩ alike.claims⟩
  | some taken =>
    obtain ⟨text, read, read'⟩ := same.text
    obtain ⟨portText, readPort, readPort'⟩ := taken.port.text
    simp only [read, read', readPort, readPort', taken.span, Attempt.ofChecked, bind, Except.bind]
    exact .refused rfl

theorem Alike.takeInput (alike : progress.Alike names others other)
    (own : names.SameText others port.name port.name) {half half' : Option Signal}
    (halves : Option.Rel (Signal.Alike names others) half half') :
    Attempt.Alike Progress.Alike names others (progress.takeInput names site port half)
      (other.takeInput others site port half') := by
  cases halves with
  | none => exact .ok alike
  | some same =>
    refine (alike.claim same.spelled own).bind fun claimed claimed' further => ?_
    exact .ok ⟨further.entity.withSignal same, further.claims⟩

theorem Alike.takeOutput (alike : progress.Alike names others other)
    (own : names.SameText others port.name port.name) {half half' : Option Signal}
    (halves : Option.Rel (Signal.Alike names others) half half') :
    Attempt.Alike Progress.Alike names others (progress.takeOutput names site port origin half)
      (other.takeOutput others site port origin half') := by
  cases halves with
  | none => exact .ok alike
  | @some signal signal' same =>
    refine (alike.claim same.spelled own).bind fun claimed claimed' further => ?_
    simp only [Entity.addSignal_eq]
    -- The signals are stored in the same slot, so their drives are the same.
    have drives : signal'.drive? claimed'.entity.nextSlot origin site =
        signal.drive? claimed.entity.nextSlot origin site := by
      rw [further.entity.nextSlot, same.same]
      rfl
    rw [drives]
    have stored := further.entity.withSignal same
    cases signal.drive? claimed.entity.nextSlot origin site with
    | error stop => exact .error stop
    | ok drive =>
      cases drive with
      | none => exact .ok ⟨stored, further.claims⟩
      | some drive => exact .ok ⟨stored.withDrive? (some drive), further.claims⟩

theorem takePort_inStep (settings : Settings) (moduleName : String) (holds : base.Holds port.name)
    (grows : base.Grows names) (grows' : base.Grows others) (alike : progress.Alike names others other) :
    names.InStep others (Attempt.Alike Progress.Alike)
      (takePort settings moduleName progress port names)
      (takePort settings moduleName other port others) := by
  -- A port is looked at by itself through names from before, so nothing differs yet.
  have plans : port.plan settings moduleName others = port.plan settings moduleName names := by
    rw [Port.plan_eq holds grows, Port.plan_eq holds grows']
  unfold takePort
  rw [plans]
  cases port.plan settings moduleName names with
  | error stop => exact ⟨[], .refl names, .refl others, .error stop⟩
  | ok plan =>
    obtain ⟨more, halves, after, halves', later, split, split', gains, gains', inputs, outputs⟩ :=
      Port.split_inStep holds grows grows' plan.type settings.companionSuffix
    -- The halves and all claims so far are compared in the tables that have the companion.
    have own := (holds.sameText grows grows').grows gains.grows gains'.grows
    simp only [split, split']
    refine ⟨more, gains, gains', ?_⟩
    exact ((alike.grows gains.grows gains'.grows).takeInput own inputs).bind
      fun _ _ further => further.takeOutput own outputs

theorem takePorts_inStep (settings : Settings) (moduleName : String) {ports : List Port}
    (holds : ∀ port ∈ ports, base.Holds port.name) (grows : base.Grows names) (grows' : base.Grows others)
    (alike : progress.Alike names others other) :
    names.InStep others (Attempt.Alike Progress.Alike)
      (takePorts settings moduleName progress ports names)
      (takePorts settings moduleName other ports others) := by
  induction ports generalizing progress other names others with
  | nil => exact ⟨[], .refl names, .refl others, .ok alike⟩
  | cons port rest ih =>
    obtain ⟨more, gains, gains', related⟩ := takePort_inStep settings moduleName
      (holds port List.mem_cons_self) grows grows' alike
    unfold takePorts
    generalize takePort settings moduleName progress port names = first at gains related ⊢
    generalize takePort settings moduleName other port others = first' at gains' related ⊢
    obtain ⟨result, after⟩ := first
    obtain ⟨result', later⟩ := first'
    have related : Attempt.Related (Progress.Alike after later) Eq result result' := related
    cases related with
    | ok further =>
      obtain ⟨more', gains₁, gains₁', related⟩ :=
        ih (fun other member => holds other (List.mem_cons_of_mem _ member))
          (grows.trans gains.grows) (grows'.trans gains'.grows) further
      exact ⟨more ++ more', gains.trans gains₁, gains'.trans gains₁', related⟩
    | refused same => exact ⟨more, gains, gains', .refused same⟩
    | broken => exact ⟨more, gains, gains', .broken⟩

theorem alike_start {m : Module} (entered : m.Entered base) (digest : Digest)
    (grows : base.Grows names) (grows' : base.Grows others) :
    (start m digest).Alike names others (start m digest) :=
  ⟨⟨entered.name.sameText grows grows', .nil, rfl⟩, .nil⟩

end Progress

namespace Module

variable {m : Module}

theorem buildWith_inStep (digest : Digest) (settings : Settings) (entered : m.Entered base)
    (grows : base.Grows names) (grows' : base.Grows others) :
    names.InStep others (Attempt.Alike Entity.Alike) (m.buildWith digest settings names)
      (m.buildWith digest settings others) := by
  have text := Names.text_label entered.name
  obtain ⟨more, gains, gains', related⟩ := Progress.takePorts_inStep settings
    (base.label m.name) entered.ports grows grows'
    (Progress.alike_start entered digest grows grows')
  rw [buildWith_eq m digest (grows.text_ok text), buildWith_eq m digest (grows'.text_ok text)]
  exact ⟨more, gains, gains', related.map fun _ _ further => further.entity⟩

end Module

/-! ## What is shown of an entity -/

theorem forall₂_getElem? {α β : Type} {each : α → β → Prop} {left : List α} {right : List β}
    (related : List.Forall₂ each left right) (index : Nat) :
    Option.Rel each left[index]? right[index]? := by
  induction related generalizing index with
  | nil => exact .none
  | cons own _ ih =>
    cases index with
    | zero => exact .some own
    | succ index => exact ih index

namespace Entity

variable {entity other : Entity}

theorem Alike.signal? (alike : entity.Alike names others other) (id : SignalId) :
    Option.Rel (Signal.Alike names others) (entity.signal? id) (other.signal? id) :=
  forall₂_getElem? alike.signals id.index

theorem Alike.signalName (alike : entity.Alike names others other) :
    other.signalName others = entity.signalName names := by
  funext id
  unfold Entity.signalName
  have found := alike.signal? id
  generalize entity.signal? id = signal at found
  generalize other.signal? id = signal' at found
  cases found with
  | none => rfl
  | some same =>
    obtain ⟨text, read, read'⟩ := same.spelled.text
    exact read'.trans read.symm

theorem Alike.signalText (alike : entity.Alike names others other) :
    other.signalText others = entity.signalText names := by
  funext id
  unfold Entity.signalText
  rw [alike.signalName]
  have found := alike.signal? id
  generalize entity.signal? id = signal at found
  generalize other.signal? id = signal' at found
  cases found with
  | none => rfl
  | some same =>
    rw [same.same]

/-- Entities that are alike are printed alike. -/
theorem Alike.listing (alike : entity.Alike names others other) :
    other.listing others = entity.listing names := by
  obtain ⟨text, read, read'⟩ := alike.spelled.text
  have drives : other.driveText others = entity.driveText names := by
    funext drive
    unfold driveText
    rw [alike.signalName]
  unfold Entity.listing signalList
  rw [read, read', drives, alike.signalText, alike.same]

end Entity

end HdlPorts
