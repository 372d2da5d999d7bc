import HdlPorts.Proofs.Verdicts

/-! Which ports collide.

A build compares names by their keys. On texts the rule is simple as long as the companion suffix is
not empty: two ports collide if they have one name, or if one is named like the companion of the
other. Companions need no rule of their own, since they differ in their ports' names alone, and no
port collides with itself. Of all collisions the one that is reported is at the earliest port that
produces a name once more, and the port that has produced it before is the only one.
-/

set_option autoImplicit false

namespace HdlPorts

variable {settings : Settings} {names : Names} {suffix : String} {ports : List Port}
  {first second port : Port} {text : String}

/-! ## Two ports -/

namespace Port

theorem companionName_ne (nonempty : suffix ≠ "") (name : String) :
    name ≠ companionName name suffix := by
  intro same
  have chars := congrArg String.toList same
  rw [companionName, String.toList_append, List.self_eq_append_right] at chars
  exact nonempty (String.toList_injective chars)

theorem companionName_inj {name other : String} :
    companionName name suffix = companionName other suffix ↔ name = other :=
  String.append_left_inj suffix

/-- A port by itself produces no name twice. -/
theorem nodup_produced (nonempty : suffix ≠ "") (port : Port) :
    (port.produced names suffix).Nodup := by
  unfold produced
  split
  · exact List.nodup_singleton _
  · exact List.nodup_singleton _
  · simp [companionName_ne nonempty]

/-- The second port is named like the first one or like its companion. -/
def Shadows (names : Names) (suffix : String) (first second : Port) : Prop :=
  names.label second.name = names.label first.name ∨
    first.direction = .inout ∧
      names.label second.name = companionName (names.label first.name) suffix

theorem mem_produced :
    text ∈ port.produced names suffix ↔
      text = names.label port.name ∨
        port.direction = .inout ∧ text = companionName (names.label port.name) suffix := by
  unfold produced
  cases port.direction <;> simp

/-- Two ports produce one name exactly if one of them is named like the other or its companion. -/
theorem disjoint_produced_iff :
    (first.produced names suffix).Disjoint (second.produced names suffix) ↔
      ¬ first.Shadows names suffix second ∧ ¬ second.Shadows names suffix first := by
  constructor
  · intro disjoint
    constructor
    · intro shadows
      exact disjoint (mem_produced.mpr shadows) (mem_produced.mpr (.inl rfl))
    · intro shadows
      exact disjoint (mem_produced.mpr (.inl rfl)) (mem_produced.mpr shadows)
  · rintro ⟨forward, backward⟩ text own other
    rcases mem_produced.mp own with rfl | ⟨inout, rfl⟩
    · exact backward (mem_produced.mp other)
    · rcases mem_produced.mp other with same | ⟨_, same⟩
      · exact forward (.inr ⟨inout, same.symm⟩)
      · -- Two companions have one name only if their ports do.
        exact forward (.inl (companionName_inj.mp same).symm)

end Port

/-! ## All ports -/

/-- The port at this position produces the text. -/
def ProducesAt (names : Names) (suffix : String) (ports : List Port) (position : Nat)
    (text : String) : Prop :=
  ∃ port, ports[position]? = some port ∧ text ∈ port.produced names suffix

/-- All names are different exactly if no port shadows one at another position. -/
theorem nodup_produced_iff (nonempty : suffix ≠ "") :
    (ports.flatMap (Port.produced names suffix)).Nodup ↔
      ¬ ∃ (i j : Nat) (first second : Port), i ≠ j ∧ ports[i]? = some first ∧
        ports[j]? = some second ∧ first.Shadows names suffix second := by
  rw [List.nodup_flatMap, List.pairwise_iff_getElem]
  constructor
  · rintro ⟨_, disjoint⟩ ⟨i, j, first, second, different, here, there, shadows⟩
    obtain ⟨boundI, rfl⟩ := List.getElem?_eq_some_iff.mp here
    obtain ⟨boundJ, rfl⟩ := List.getElem?_eq_some_iff.mp there
    rcases Nat.lt_or_gt_of_ne different with before | after
    · exact (Port.disjoint_produced_iff.mp (disjoint i j boundI boundJ before)).1 shadows
    · exact (Port.disjoint_produced_iff.mp (disjoint j i boundJ boundI after)).2 shadows
  · intro unshadowed
    refine ⟨fun port _ => Port.nodup_produced nonempty port, ?_⟩
    intro i j boundI boundJ before
    refine Port.disjoint_produced_iff.mpr ⟨fun shadows => ?_, fun shadows => ?_⟩
    · exact unshadowed ⟨i, j, _, _, Nat.ne_of_lt before, List.getElem?_eq_getElem boundI,
        List.getElem?_eq_getElem boundJ, shadows⟩
    · exact unshadowed ⟨j, i, _, _, Nat.ne_of_gt before, List.getElem?_eq_getElem boundJ,
        List.getElem?_eq_getElem boundI, shadows⟩

/-- Where all names are different, each of them is produced at one position only. -/
theorem ProducesAt.unique (distinct : (ports.flatMap (Port.produced names suffix)).Nodup)
    {i j : Nat} (here : ProducesAt names suffix ports i text)
    (there : ProducesAt names suffix ports j text) : i = j := by
  obtain ⟨_, disjoint⟩ := List.nodup_flatMap.mp distinct
  rw [List.pairwise_iff_getElem] at disjoint
  obtain ⟨first, found, own⟩ := here
  obtain ⟨second, found', other⟩ := there
  obtain ⟨boundI, rfl⟩ := List.getElem?_eq_some_iff.mp found
  obtain ⟨boundJ, rfl⟩ := List.getElem?_eq_some_iff.mp found'
  by_contra different
  rcases Nat.lt_or_gt_of_ne different with before | after
  · exact disjoint i j boundI boundJ before own other
  · exact disjoint j i boundJ boundI after other own

theorem producesAt_append {rest : List Port} {i : Nat} (inside : i < ports.length) :
    ProducesAt names suffix (ports ++ rest) i text ↔ ProducesAt names suffix ports i text := by
  simp only [ProducesAt, List.getElem?_append_left inside]

theorem mem_of_producesAt {i : Nat} (here : ProducesAt names suffix ports i text) :
    text ∈ ports.flatMap (Port.produced names suffix) := by
  obtain ⟨port, found, own⟩ := here
  exact List.mem_flatMap.mpr ⟨port, List.mem_of_getElem? found, own⟩

/-- The port at a position produces a text once more, and this is the first time that any text is
produced once more. The port at the earlier position has produced it before. -/
structure CollidesAt (names : Names) (suffix : String) (ports : List Port) (position : Nat)
    (port : Port) (text : String) (earlier : Nat) (first : Port) : Prop where
  here : ports[position]? = some port
  there : ports[earlier]? = some first
  before : earlier < position
  produced : text ∈ first.produced names suffix
  unique : ∀ other < position, ProducesAt names suffix ports other text → other = earlier
  /-- No port before this one produces a text that was produced before. -/
  earliest : ∀ j < position, ∀ i < j, ∀ other,
    ProducesAt names suffix ports j other → ¬ ProducesAt names suffix ports i other
  /-- Of the texts of the port it is the first that was produced before. -/
  foremost : ∃ previous rest, port.produced names suffix = previous ++ text :: rest ∧
    ∀ other ∈ previous, ∀ i < position, ¬ ProducesAt names suffix ports i other

theorem collidesAt_of_repeated {earlier rest : List Port} {previous after : List String}
    (produced : port.produced names suffix = previous ++ text :: after)
    (distinct : (earlier.flatMap (Port.produced names suffix) ++ previous).Nodup)
    (member : first ∈ earlier) (own : text ∈ first.produced names suffix) :
    ∃ position, CollidesAt names suffix (earlier ++ port :: rest) earlier.length port text position
      first := by
  obtain ⟨position, bound, rfl⟩ := List.mem_iff_getElem.mp member
  have found := List.getElem?_eq_getElem bound
  have unique {i j : Nat} {text : String} (boundI : i < earlier.length)
      (boundJ : j < earlier.length)
      (here : ProducesAt names suffix (earlier ++ port :: rest) i text)
      (there : ProducesAt names suffix (earlier ++ port :: rest) j text) : i = j :=
    ProducesAt.unique distinct.of_append_left ((producesAt_append boundI).mp here)
      ((producesAt_append boundJ).mp there)
  refine ⟨position, ?_, ?_, bound, own, ?_, ?_, previous, after, produced, ?_⟩
  · simp
  · rw [List.getElem?_append_left bound, found]
  · intro other boundOther there
    exact unique boundOther bound there ((producesAt_append bound).mpr ⟨_, found, own⟩)
  · intro j boundJ i before other here there
    exact Nat.ne_of_lt before (unique (Nat.lt_trans before boundJ) boundJ there here)
  · intro other listed i boundI there
    exact List.disjoint_of_nodup_append distinct
      (mem_of_producesAt ((producesAt_append boundI).mp there)) listed

/-! ## Modules -/

namespace Module

variable {m : Module}

/-- Nothing is wrong with the ports of a module, each taken by itself. -/
structure EachAcceptable (m : Module) (names : Names) : Prop where
  resolved : ∀ port ∈ m.ports, ∃ type, port.type.signalType = .ok type
  uninitialized : ∀ port ∈ m.ports, port.direction = .inout → port.initializer = none
  evaluated : ∀ port ∈ m.ports, port.direction = .output → ∀ type initializer,
    port.type.signalType = .ok type → port.initializer = some initializer →
    ∃ value, initializer.fit type.width.toNat (port.site names (names.label m.name)) = .ok value

/-- A port that fails although nothing is wrong with it by itself fails for a name. -/
theorem EachAcceptable.collision {earlier : List Port} {rejection : Rejection}
    (each : m.EachAcceptable names) (member : port ∈ m.ports)
    (fails : Fails settings names (names.label m.name) earlier port rejection) :
    ∃ site text firstPort firstSpan, rejection = .nameCollision site text firstPort firstSpan := by
  cases fails with
  | type unresolved =>
    obtain ⟨type, resolved⟩ := each.resolved port member
    cases unresolved.symm.trans resolved
  | initializer _ inout initialized =>
    cases initialized.symm.trans (each.uninitialized port member inout)
  | name => exact ⟨_, _, _, _, rfl⟩
  | width resolved output initialized _ refused =>
    obtain ⟨value, fitted⟩ := each.evaluated port member output _ _ resolved initialized
    cases refused.symm.trans fitted
  | value resolved output initialized _ refused =>
    obtain ⟨value, fitted⟩ := each.evaluated port member output _ _ resolved initialized
    cases refused.symm.trans fitted

theorem EachAcceptable.collision_iff_repeated (each : m.EachAcceptable names)
    (entered : m.Entered names) (settings : Settings) :
    (∃ site text firstPort firstSpan, (m.build settings names).1 =
        .error (.refused (.nameCollision site text firstPort firstSpan))) ↔
      ¬ (m.ports.flatMap (Port.produced names settings.companionSuffix)).Nodup := by
  rcases build_outcome entered settings with ⟨entity, built, accepted⟩ |
    ⟨earlier, port, rest, rejection, split, acceptable, fails, refused⟩ |
    ⟨port, member, fault, breaks, _⟩
  · constructor
    · rintro ⟨_, _, _, _, refused⟩
      cases built.symm.trans refused
    · exact fun repeated => absurd accepted.distinct repeated
  · have member : port ∈ m.ports := split ▸ List.mem_append_right _ List.mem_cons_self
    obtain ⟨site, text, firstPort, firstSpan, rfl⟩ := each.collision member fails
    refine ⟨fun _ distinct => ?_, fun _ => ⟨site, text, firstPort, firstSpan, refused⟩⟩
    have accepted : m.Accepted settings names :=
      ⟨each.resolved, each.uninitialized, distinct, each.evaluated⟩
    rw [Accepted, split, ← List.singleton_append, ← List.append_assoc] at accepted
    exact fails.not_acceptable accepted.prefix
  · obtain ⟨type, initializer, output, resolved, initialized, broken⟩ := breaks
    obtain ⟨value, fitted⟩ := each.evaluated port member output _ _ resolved initialized
    cases broken.symm.trans fitted

/-- A collision that is reported is the first one. -/
theorem collidesAt_of_reported (entered : m.Entered names)
    (nonempty : settings.companionSuffix ≠ "") {site : Site} {firstPort : String}
    {firstSpan : Span} (reported : (m.build settings names).1 =
      .error (.refused (.nameCollision site text firstPort firstSpan))) :
    ∃ position port earlier first,
      CollidesAt names settings.companionSuffix m.ports position port text earlier first ∧
      site = port.site names (names.label m.name) ∧ firstPort = names.label first.name ∧
      firstSpan = first.span := by
  rcases build_outcome entered settings with ⟨entity, built, _⟩ |
    ⟨earlier, port, rest, rejection, split, _, fails, refused⟩ | ⟨_, _, fault, _, broken⟩
  · cases built.symm.trans reported
  · cases refused.symm.trans reported
    cases fails with
    | @name type previous after _ first _ _ produced distinct taken =>
      rcases List.mem_append.mp taken with old | own
      · obtain ⟨member, own⟩ := mem_productions.mp old
        obtain ⟨position, collides⟩ := collidesAt_of_repeated produced distinct member own
        exact ⟨_, port, position, first, split ▸ collides, rfl, rfl, rfl⟩
      · -- The port itself has not produced the text before.
        obtain ⟨_, repeated, same⟩ := List.mem_map.mp own
        cases same
        have own : (port.produced names settings.companionSuffix).Nodup :=
          Port.nodup_produced nonempty port
        rw [produced] at own
        exact absurd List.mem_cons_self (List.disjoint_of_nodup_append own repeated)
  · cases broken.symm.trans reported

/-- If nothing else is wrong with a module, it is turned down for a collision exactly if a port is
named like a port at another position, or like the companion of one. Whatever else is wrong with it,
a collision that is reported is the first one: it is reported at the earliest port that produces a
text once more, with the first such text of the port, and with the one port before it that has
produced the text. -/
theorem collision_iff_shadowed (entered : m.Entered names)
    (nonempty : settings.companionSuffix ≠ "") :
    (m.EachAcceptable names →
      ((∃ site text firstPort firstSpan, (m.build settings names).1 =
          .error (.refused (.nameCollision site text firstPort firstSpan))) ↔
        ∃ (i j : Nat) (first second : Port), i ≠ j ∧ m.ports[i]? = some first ∧
          m.ports[j]? = some second ∧ first.Shadows names settings.companionSuffix second)) ∧
    ∀ site text firstPort firstSpan, (m.build settings names).1 =
        .error (.refused (.nameCollision site text firstPort firstSpan)) →
      ∃ position port earlier first,
        CollidesAt names settings.companionSuffix m.ports position port text earlier first ∧
        site = port.site names (names.label m.name) ∧ firstPort = names.label first.name ∧
        firstSpan = first.span := by
  refine ⟨fun each => ?_, fun _ _ _ _ => collidesAt_of_reported entered nonempty⟩
  rw [each.collision_iff_repeated entered settings, nodup_produced_iff nonempty, not_not]

end Module

/-! ## A companion that comes too late -/

namespace Sample

def clashTable : Names := ⟨["N", "z0", "z"], by decide⟩

/-- A port that is named like the companion of the next one. -/
def clashing : Module :=
  ⟨⟨0⟩, [⟨⟨1⟩, .output, .bit, none, ⟨⟨0⟩, 4, 6⟩⟩, ⟨⟨2⟩, .inout, .bit, none, ⟨⟨0⟩, 8, 9⟩⟩], .dummy⟩

theorem entered_clashing : clashing.Entered clashTable :=
  ⟨by decide, by decide⟩

theorem each_clashing : clashing.EachAcceptable clashTable := by
  refine ⟨?_, ?_, ?_⟩
  · intro port member
    simp only [clashing, List.mem_cons, List.not_mem_nil, or_false] at member
    rcases member with rfl | rfl <;> exact ⟨.bit, rfl⟩
  · intro port member _
    simp only [clashing, List.mem_cons, List.not_mem_nil, or_false] at member
    rcases member with rfl | rfl <;> rfl
  · intro port member _ type initializer _ initialized
    simp only [clashing, List.mem_cons, List.not_mem_nil, or_false] at member
    rcases member with rfl | rfl <;> cases initialized

end Sample

/-- The second port is reported for the name of its companion, together with the first port. -/
theorem Module.collision_iff_shadowed_lateCompanion :
    (Sample.clashing.build {} Sample.clashTable).1 =
      .error (.refused (.nameCollision ⟨"N", "z", ⟨⟨0⟩, 8, 9⟩⟩ "z0" "z0" ⟨⟨0⟩, 4, 6⟩)) := by
  have collision := Module.collision_iff_shadowed Sample.entered_clashing
    (show ({} : Settings).companionSuffix ≠ "" by decide)
  obtain ⟨site, text, firstPort, firstSpan, reported⟩ := (collision.1 Sample.each_clashing).mpr
    ⟨1, 0, _, _, by decide, rfl, rfl, .inr ⟨rfl, by decide⟩⟩
  obtain ⟨position, port, earlier, first, collides, rfl, rfl, rfl⟩ :=
    collision.2 site text firstPort firstSpan reported
  -- There are two positions, so the later one is that of the second port.
  have bound : position < 2 := (List.getElem?_eq_some_iff.mp collides.here).1
  have before := collides.before
  obtain ⟨rfl, rfl⟩ : position = 1 ∧ earlier = 0 := by omega
  cases collides.here
  cases collides.there
  have same : text = "z0" := List.mem_singleton.mp collides.produced
  rw [reported, same]
  rfl

end HdlPorts
