import HdlPorts.Proofs.PortLoop

/-! Which modules are accepted, and what is said about the others.

A module is accepted if all of its ports are good by themselves and no two signal names are equal.
This can be said without going through the ports in order. The loop does go through them in order,
and stops at the first port that is at fault; its claims are the texts that the ports before it have
produced, which is the invariant that ties both views together.
-/

set_option autoImplicit false

namespace HdlPorts

/-! ## Acceptable ports -/

namespace Port

/-- The texts of the signal names that a port produces, in order. -/
def produced (names : Names) (suffix : String) (port : Port) : List String :=
  match port.direction with
  | .input | .output => [names.label port.name]
  | .inout => [names.label port.name, companionName (names.label port.name) suffix]

/-- The texts together with the port. -/
def productions (names : Names) (suffix : String) (port : Port) : List (String × Port) :=
  (port.produced names suffix).map (·, port)

/-- How a rejection calls the port. -/
def site (names : Names) (moduleName : String) (port : Port) : Site :=
  ⟨moduleName, names.label port.name, port.span⟩

end Port

section Judgement

variable (settings : Settings) (names : Names) (moduleName : String)

/-- Nothing is wrong with the ports, taken together in this order or in any other. -/
structure Acceptable (ports : List Port) : Prop where
  resolved : ∀ port ∈ ports, ∃ type, port.type.signalType = .ok type
  uninitialized : ∀ port ∈ ports, port.direction = .inout → port.initializer = none
  distinct : (ports.flatMap (Port.produced names settings.companionSuffix)).Nodup
  evaluated : ∀ port ∈ ports, port.direction = .output →
    ∀ type initializer, port.type.signalType = .ok type → port.initializer = some initializer →
      ∃ value, initializer.fit type.width.toNat (port.site names moduleName) = .ok value

/-- The rejection says what is wrong with a port that comes after these. A port may be wrong in more
than one way: its type is looked at first, then the place of its initializer, then the names it
produces, and only then the value of its initializer. -/
inductive Fails (earlier : List Port) (port : Port) : Rejection → Prop where
  | type {text : String} : port.type.signalType = .error text →
      Fails earlier port (.unsupportedType (port.site names moduleName) text)
  | initializer {type : SignalType} {initializer : Expression} :
      port.type.signalType = .ok type → port.direction = .inout →
      port.initializer = some initializer →
      Fails earlier port (.initializedInout (port.site names moduleName))
  /-- The port produces a text that an earlier port has produced, or the port itself before it. -/
  | name {type : SignalType} {before after : List String} {text : String} {first : Port} :
      port.type.signalType = .ok type → (port.direction = .inout → port.initializer = none) →
      port.produced names settings.companionSuffix = before ++ text :: after →
      (earlier.flatMap (Port.produced names settings.companionSuffix) ++ before).Nodup →
      (text, first) ∈ earlier.flatMap (Port.productions names settings.companionSuffix) ++
        before.map (·, port) →
      Fails earlier port (.nameCollision (port.site names moduleName) text
        (names.label first.name) first.span)
  | width {type : SignalType} {initializer : Expression} {valueWidth : Nat} :
      port.type.signalType = .ok type → port.direction = .output →
      port.initializer = some initializer →
      ((earlier ++ [port]).flatMap (Port.produced names settings.companionSuffix)).Nodup →
      initializer.fit type.width.toNat (port.site names moduleName) =
        .error (.refused (.widthMismatch (port.site names moduleName) valueWidth
          type.width.toNat)) →
      Fails earlier port
        (.widthMismatch (port.site names moduleName) valueWidth type.width.toNat)
  | value {type : SignalType} {initializer : Expression} {reason : String} :
      port.type.signalType = .ok type → port.direction = .output →
      port.initializer = some initializer →
      ((earlier ++ [port]).flatMap (Port.produced names settings.companionSuffix)).Nodup →
      initializer.fit type.width.toNat (port.site names moduleName) =
        .error (.refused (.notConstant (port.site names moduleName) reason)) →
      Fails earlier port (.notConstant (port.site names moduleName) reason)

end Judgement

variable {settings : Settings} {base names later : Names} {moduleName : String}
  {earlier ports : List Port} {port : Port} {rejection : Rejection}

theorem Acceptable.prefix (acceptable : Acceptable settings base moduleName (earlier ++ ports)) :
    Acceptable settings base moduleName earlier where
  resolved := fun port member => acceptable.resolved port (List.mem_append_left _ member)
  uninitialized := fun port member => acceptable.uninitialized port (List.mem_append_left _ member)
  distinct := by
    have distinct := acceptable.distinct
    rw [List.flatMap_append] at distinct
    exact distinct.of_append_left
  evaluated := fun port member => acceptable.evaluated port (List.mem_append_left _ member)

theorem Acceptable.snoc {type : SignalType} (acceptable : Acceptable settings base moduleName earlier)
    (resolved : port.type.signalType = .ok type)
    (uninitialized : port.direction = .inout → port.initializer = none)
    (distinct :
      ((earlier ++ [port]).flatMap (Port.produced base settings.companionSuffix)).Nodup)
    (evaluated : port.direction = .output → ∀ initializer, port.initializer = some initializer →
      ∃ value, initializer.fit type.width.toNat (port.site base moduleName) = .ok value) :
    Acceptable settings base moduleName (earlier ++ [port]) := by
  refine ⟨?_, ?_, distinct, ?_⟩
  · intro other member
    rcases List.mem_append.mp member with old | new
    · exact acceptable.resolved other old
    · rw [List.mem_singleton.mp new]
      exact ⟨type, resolved⟩
  · intro other member
    rcases List.mem_append.mp member with old | new
    · exact acceptable.uninitialized other old
    · rw [List.mem_singleton.mp new]
      exact uninitialized
  · intro other member
    rcases List.mem_append.mp member with old | new
    · exact acceptable.evaluated other old
    · rw [List.mem_singleton.mp new]
      intro output type' initializer resolved' found
      cases resolved.symm.trans resolved'
      exact evaluated output initializer found

theorem mem_productions {suffix text : String} :
    (text, port) ∈ ports.flatMap (Port.productions base suffix) ↔
      port ∈ ports ∧ text ∈ port.produced base suffix := by
  simp [Port.productions]

/-- A port that fails is not acceptable where it stands. -/
theorem Fails.not_acceptable (fails : Fails settings base moduleName earlier port rejection) :
    ¬ Acceptable settings base moduleName (earlier ++ [port]) := by
  intro acceptable
  have member : port ∈ earlier ++ [port] := List.mem_append_right _ (List.mem_singleton.mpr rfl)
  cases fails with
  | type unresolved =>
    obtain ⟨type, resolved⟩ := acceptable.resolved port member
    cases unresolved.symm.trans resolved
  | initializer _ inout initialized =>
    cases initialized.symm.trans (acceptable.uninitialized port member inout)
  | @name type before after text first _ _ produced _ taken =>
    have distinct := acceptable.distinct
    rw [List.flatMap_append, List.flatMap_singleton, produced, ← List.append_assoc] at distinct
    -- The text was produced before, so acceptable ports would have it twice.
    have repeated : text ∈
        earlier.flatMap (Port.produced base settings.companionSuffix) ++ before := by
      rcases List.mem_append.mp taken with old | own
      · exact List.mem_append_left _ (List.mem_flatMap.mpr ⟨first, mem_productions.mp old⟩)
      · obtain ⟨text, listed, same⟩ := List.mem_map.mp own
        cases same
        exact List.mem_append_right _ listed
    exact List.disjoint_of_nodup_append distinct repeated List.mem_cons_self
  | width resolved output initialized _ refused =>
    obtain ⟨value, fitted⟩ := acceptable.evaluated port member output _ _ resolved initialized
    cases refused.symm.trans fitted
  | value resolved output initialized _ refused =>
    obtain ⟨value, fitted⟩ := acceptable.evaluated port member output _ _ resolved initialized
    cases refused.symm.trans fitted

/-- The port that a rejection names. -/
def Rejection.site? : Rejection → Option Site
  | unsupportedType site _ | widthMismatch site _ _ | nameCollision site _ _ _
  | initializedInout site | notConstant site _ => some site
  | duplicateName .. | internal _ => none

theorem Fails.site (fails : Fails settings base moduleName earlier port rejection) :
    rejection.site? = some (port.site base moduleName) := by
  cases fails <;> rfl

/-! ## Modules -/

namespace Module

/-- The table has the module's name and those of its ports. -/
structure Entered (m : Module) (names : Names) : Prop where
  name : names.Holds m.name
  ports : ∀ port ∈ m.ports, names.Holds port.name

/-- The initializers of output ports have words for all their bits. -/
def Readable (m : Module) : Prop :=
  ∀ port ∈ m.ports, port.direction = .output →
    ∀ initializer, port.initializer = some initializer → initializer.Complete

/-- The ports of the module are acceptable. -/
def Accepted (m : Module) (settings : Settings) (names : Names) : Prop :=
  Acceptable settings names (names.label m.name) m.ports

theorem Entered.grows {m : Module} (entered : m.Entered names) (grows : names.Grows later) :
    m.Entered later :=
  ⟨grows.holds entered.name, fun port member => grows.holds (entered.ports port member)⟩

end Module

/-! ## What a build has read -/

/-- What a look at a port by itself has found, as seen from a later table. -/
theorem Port.plan_cases {plan : PortPlan} (done : port.plan settings moduleName names = .ok plan)
    (grows : names.Grows later) :
    later.Holds port.name ∧ plan.site = port.site later moduleName ∧
      port.type.signalType = .ok plan.type ∧
      port.origin settings.twoStateDefaults plan.site = .ok plan.origin := by
  obtain ⟨text, found, done⟩ := ok_of_bind done
  obtain ⟨type, resolved, done⟩ := ok_of_bind done
  obtain ⟨origin, placed, done⟩ := ok_of_bind done
  cases done
  have own := Names.text_eq_ok.mp (Attempt.ok_of_ofChecked found)
  refine ⟨?_, ?_, ?_, placed⟩
  · exact (List.getElem?_eq_some_iff.mp (grows.text? own)).1
  · rw [site, Names.label_of_text? (grows.text? own)]
  · unfold signalType at resolved
    split at resolved
    · next same =>
      cases resolved
      exact same
    · cases resolved

theorem Progress.holds_of_takePorts {progress next : Progress} {ports : List Port}
    (done : takePorts settings moduleName progress ports names = (.ok next, later)) :
    ∀ port ∈ ports, later.Holds port.name := by
  induction ports generalizing progress names with
  | nil =>
    intro port member
    cases member
  | cons first rest ih =>
    obtain ⟨middle, table, one, others⟩ := takePorts_cons done
    have grows := grows_takePorts settings moduleName middle rest table
    rw [others] at grows
    have whole := grows_takePort settings moduleName progress first names
    rw [one] at whole
    obtain ⟨plan, _, planned, _⟩ := takePort_cases one
    intro port member
    rcases List.mem_cons.mp member with rfl | listed
    · exact (Port.plan_cases planned (whole.trans grows)).1
    · exact ih others port listed

/-- A module that was built has its names in the table. -/
theorem Module.entered_of_build {m : Module} {digest : Digest} {entity : Entity}
    (built : m.buildWith digest settings names = (.ok entity, later)) : m.Entered later := by
  obtain ⟨moduleName, progress, found, taken, _⟩ := buildWith_cases built
  have grows := Progress.grows_takePorts settings moduleName (.start m digest) m.ports names
  rw [taken] at grows
  have own := grows.text? (Names.text_eq_ok.mp found)
  exact ⟨(List.getElem?_eq_some_iff.mp own).1, Progress.holds_of_takePorts taken⟩

end HdlPorts
