import HdlPorts.Proofs.EntityRules
import HdlPorts.Proofs.Traversals

/-! What the check of an entity reports, and what it is good for.

The check looks at the listed signals and then at the drives, one after the other, and remembers
names and targets. Each of these items can be judged by itself, given the items before it. The check
goes on as long as nothing is wrong, and reports the first thing that is; it never looks up a signal
that is not there, because a target is looked up only after all outputs were found. An entity that
passes can be searched without looking anything up in vain.
-/

set_option autoImplicit false

namespace HdlPorts.Entity

/-! ## Items -/

/-- What is looked at: a signal in the list of a role, or a drive. -/
inductive Item where
  | listed (role : Role) (id : SignalId)
  | driven (drive : Drive)

/-- Everything that is looked at, in order. -/
def items (entity : Entity) : List Item :=
  entity.inputs.map (.listed .input) ++ entity.outputs.map (.listed .output) ++
    entity.body.map .driven

/-- The names of the listed signals among some items. -/
def namesAmong (entity : Entity) (items : List Item) : List Name :=
  items.filterMap fun
    | .listed _ id => (entity.signal? id).map (·.name)
    | .driven _ => none

/-- The targets of the drives among some items. -/
def targetsAmong (items : List Item) : List SignalId :=
  items.filterMap fun
    | .listed .. => none
    | .driven drive => some drive.target

/-- The violation says what is wrong with an item that comes after these. An item may be wrong in
more than one way: a listed signal is first looked up, and its role is looked at before its name;
the target of a drive has to be an output, is then compared with the targets before it, and only
then is its width compared. -/
inductive Breaks (entity : Entity) (earlier : List Item) : Item → Violation → Prop where
  | role {role : Role} {id : SignalId} : ¬ entity.HasRole role id →
      Breaks entity earlier (.listed role id) (.roleMismatch id)
  | name {role : Role} {id : SignalId} {signal : Signal} : entity.signal? id = some signal →
      signal.role = role → signal.name ∈ entity.namesAmong earlier →
      Breaks entity earlier (.listed role id) (.duplicateName signal.name)
  | target {drive : Drive} : drive.target ∉ entity.outputs →
      Breaks entity earlier (.driven drive) (.targetNotOutput drive.target)
  | driver {drive : Drive} : drive.target ∈ entity.outputs →
      drive.target ∈ targetsAmong earlier →
      Breaks entity earlier (.driven drive) (.multipleDrivers drive.target)
  | width {drive : Drive} {signal : Signal} : drive.target ∈ entity.outputs →
      drive.target ∉ targetsAmong earlier →
      entity.signal? drive.target = some signal →
      drive.value.width ≠ signal.type.width.toNat →
      Breaks entity earlier (.driven drive)
        (.driveWidth drive.target drive.value.width signal.type.width.toNat)

/-- Nothing is wrong with any of the items, each taken after those before it. -/
def Clean (entity : Entity) (items : List Item) : Prop :=
  ∀ before item after, items = before ++ item :: after →
    ∀ violation, ¬ entity.Breaks before item violation

/-- The violation is that of the first item at fault. -/
def FirstViolation (entity : Entity) (violation : Violation) : Prop :=
  ∃ before item after, entity.items = before ++ item :: after ∧ entity.Clean before ∧
    entity.Breaks before item violation

variable {entity : Entity} {earlier items rest : List Item} {item : Item}
  {violation other : Violation} {signal : Signal} {drive : Drive} {role : Role} {id : SignalId}

/-- There is one violation to report of an item. -/
theorem Breaks.unique (breaks : entity.Breaks earlier item violation)
    (breaks' : entity.Breaks earlier item other) : violation = other := by
  cases breaks with
  | role wrong =>
    cases breaks' with
    | role => rfl
    | name found own _ => exact absurd ⟨_, found, own⟩ wrong
  | name found own _ =>
    cases breaks' with
    | role wrong => exact absurd ⟨_, found, own⟩ wrong
    | name found' =>
      cases found.symm.trans found'
      rfl
  | target outside =>
    cases breaks' with
    | target => rfl
    | driver output _ => exact absurd output outside
    | width output => exact absurd output outside
  | driver output driven =>
    cases breaks' with
    | target outside => exact absurd output outside
    | driver => rfl
    | width _ free => exact absurd driven free
  | width output free found =>
    cases breaks' with
    | target outside => exact absurd output outside
    | driver _ driven => exact absurd driven free
    | width _ _ found' =>
      cases found.symm.trans found'
      rfl

/-- Nothing is wrong with a listed signal of the right role whose name is new. -/
theorem not_breaks_listed (found : entity.signal? id = some signal) (own : signal.role = role)
    (fresh : signal.name ∉ entity.namesAmong earlier) (violation : Violation) :
    ¬ entity.Breaks earlier (.listed role id) violation := by
  intro breaks
  cases breaks with
  | role wrong => exact wrong ⟨signal, found, own⟩
  | name found' _ taken =>
    cases found.symm.trans found'
    exact fresh taken

/-- Nothing is wrong with the first drive of an output that is as wide. -/
theorem not_breaks_driven (output : drive.target ∈ entity.outputs)
    (free : drive.target ∉ targetsAmong earlier) (found : entity.signal? drive.target = some signal)
    (fits : drive.value.width = signal.type.width.toNat) (violation : Violation) :
    ¬ entity.Breaks earlier (.driven drive) violation := by
  intro breaks
  cases breaks with
  | target outside => exact outside output
  | driver _ taken => exact free taken
  | width _ _ found' other =>
    cases found.symm.trans found'
    exact other fits

theorem mem_namesAmong_snoc {name : Name} :
    name ∈ entity.namesAmong (earlier ++ [.listed role id]) ↔
      name ∈ entity.namesAmong earlier ∨ (entity.signal? id).map (·.name) = some name := by
  simp [namesAmong]

theorem targetsAmong_append (first second : List Item) :
    targetsAmong (first ++ second) = targetsAmong first ++ targetsAmong second :=
  List.filterMap_append

theorem mem_targetsAmong_snoc : id ∈ targetsAmong (earlier ++ [.driven drive]) ↔
    id ∈ targetsAmong earlier ∨ id = drive.target := by
  rw [targetsAmong_append, List.mem_append]
  exact or_congr_right List.mem_singleton

theorem clean_nil : entity.Clean [] := by
  intro before item after split
  cases before <;> cases split

theorem Clean.snoc (clean : entity.Clean earlier)
    (kept : ∀ violation, ¬ entity.Breaks earlier item violation) :
    entity.Clean (earlier ++ [item]) := by
  intro before other after split
  rcases List.eq_nil_or_concat after with rfl | ⟨after, last, rfl⟩
  · obtain ⟨rfl, same⟩ := List.append_inj' split rfl
    cases same
    exact kept
  · have whole : earlier ++ [item] = (before ++ other :: after) ++ [last] := by
      rw [split, List.concat_eq_append, List.append_assoc, List.cons_append]
    exact clean before other after (List.append_inj' whole rfl).1

theorem Clean.hasRole (clean : entity.Clean items) (member : .listed role id ∈ items) :
    entity.HasRole role id := by
  obtain ⟨before, after, split⟩ := List.append_of_mem member
  by_contra wrong
  exact clean before _ after split _ (.role wrong)

/-- Clean items end before one that is at fault. -/
theorem Clean.length_le {others tail : List Item} (clean : entity.Clean others)
    (breaks : entity.Breaks earlier item violation)
    (split : earlier ++ item :: rest = others ++ tail) : others.length ≤ earlier.length := by
  rcases List.append_eq_append_iff.mp split with ⟨between, longer, further⟩ | ⟨between, longer, _⟩
  · cases between with
    | nil => simp [longer]
    | cons next between =>
      cases further
      exact absurd breaks (clean earlier item between longer violation)
  · simp [longer]

/-- Only one violation can be the first. -/
theorem FirstViolation.unique (first : entity.FirstViolation violation)
    (first' : entity.FirstViolation other) : violation = other := by
  obtain ⟨before, item, after, split, clean, breaks⟩ := first
  obtain ⟨before', item', after', split', clean', breaks'⟩ := first'
  have whole := split.symm.trans split'
  have length := Nat.le_antisymm (clean.length_le breaks' whole.symm)
    (clean'.length_le breaks whole)
  obtain ⟨rfl, same⟩ := List.append_inj whole length
  cases same
  exact breaks.unique breaks'

/-! ## The scan -/

/-- The scan of some items, after others that are clean, passes if these are clean too, or ends with
the violation of the first that is at fault. -/
inductive Verdict {α : Type} (entity : Entity) (earlier items : List Item) (post : α → Prop) :
    Attempt Violation α → Prop where
  | passed {value : α} : entity.Clean (earlier ++ items) → post value →
      Verdict entity earlier items post (.ok value)
  | stopped (before : List Item) {after : List Item} {item : Item} {violation : Violation} :
      items = before ++ item :: after → entity.Clean (earlier ++ before) →
      entity.Breaks (earlier ++ before) item violation →
      Verdict entity earlier items post (.refuse violation)

section Scan

variable {α β : Type} {post : α → Prop} {attempt : Attempt Violation α}

theorem Verdict.here (clean : entity.Clean earlier)
    (breaks : entity.Breaks earlier item violation) :
    entity.Verdict earlier (item :: rest) post (.refuse violation) := by
  refine .stopped [] rfl ?_ ?_
  · rwa [List.append_nil]
  · rwa [List.append_nil]

theorem Verdict.next (verdict : entity.Verdict (earlier ++ [item]) rest post attempt) :
    entity.Verdict earlier (item :: rest) post attempt := by
  have whole (items : List Item) : earlier ++ [item] ++ items = earlier ++ item :: items := by
    rw [List.append_assoc, List.singleton_append]
  cases verdict with
  | passed clean holds => exact .passed (whole rest ▸ clean) holds
  | stopped before split clean breaks =>
    refine .stopped (item :: before) (by rw [split]; rfl) ?_ ?_
    · rwa [← whole]
    · rwa [← whole]

theorem Verdict.bind {f : α → Attempt Violation β} {post' : β → Prop}
    (verdict : entity.Verdict earlier items post attempt)
    (further : ∀ value, entity.Clean (earlier ++ items) → post value →
      entity.Verdict (earlier ++ items) rest post' (f value)) :
    entity.Verdict earlier (items ++ rest) post' (attempt >>= f) := by
  cases verdict with
  | @passed value clean holds =>
    have next := further value clean holds
    change entity.Verdict earlier (items ++ rest) post' (f value)
    generalize f value = result at next ⊢
    cases next with
    | passed clean holds => exact .passed (List.append_assoc .. ▸ clean) holds
    | stopped before split clean breaks =>
      refine .stopped (items ++ before) (by rw [split, List.append_assoc]) ?_ ?_
      · rwa [← List.append_assoc]
      · rwa [← List.append_assoc]
  | stopped before split clean breaks =>
    exact .stopped before (by rw [split, List.append_assoc, List.cons_append]) clean breaks

theorem Verdict.unbroken (verdict : entity.Verdict earlier items post attempt) :
    attempt.Unbroken := by
  cases verdict with
  | passed => exact Attempt.unbroken_ok _
  | stopped => exact Attempt.unbroken_refuse _

theorem Verdict.refused_iff (verdict : entity.Verdict [] entity.items post attempt) :
    attempt = .refuse violation ↔ entity.FirstViolation violation := by
  cases verdict with
  | passed clean =>
    refine ⟨nofun, ?_⟩
    rintro ⟨before, item, after, split, _, breaks⟩
    exact absurd breaks (clean before item after split violation)
  | @stopped before after item reported split clean breaks =>
    have first : entity.FirstViolation reported := ⟨before, item, after, split, clean, breaks⟩
    constructor
    · rintro ⟨⟩
      exact first
    · intro first'
      rw [first.unique first']

end Scan

theorem checkListed_verdict {seen : List Name} {ids : List SignalId}
    (clean : entity.Clean earlier)
    (known : ∀ name, name ∈ seen ↔ name ∈ entity.namesAmong earlier) :
    entity.Verdict earlier (ids.map (.listed role))
      (fun names => ∀ name, name ∈ names ↔
        name ∈ entity.namesAmong (earlier ++ ids.map (.listed role)))
      (entity.checkListed role seen ids) := by
  induction ids generalizing earlier seen with
  | nil =>
    rw [List.map_nil, List.append_nil]
    exact .passed (by rwa [List.append_nil]) known
  | cons id rest ih =>
    rw [checkListed, List.map_cons]
    cases found : entity.signal? id with
    | none =>
      refine .here clean (.role ?_)
      rintro ⟨_, found', _⟩
      cases found.symm.trans found'
    | some signal =>
      by_cases own : signal.role = role
      · by_cases member : signal.name ∈ seen
        · simp only [own, ne_eq, not_true, if_false, if_pos member]
          exact .here clean (.name found own ((known _).mp member))
        · have kept := not_breaks_listed found own (mt (known _).mpr member)
          have known' (name : Name) : name ∈ signal.name :: seen ↔
              name ∈ entity.namesAmong (earlier ++ [.listed role id]) := by
            rw [List.mem_cons, known, mem_namesAmong_snoc, found, Option.map_some,
              Option.some.injEq, or_comm, eq_comm]
          simp only [own, ne_eq, not_true, if_false, if_neg member]
          simpa only [List.append_assoc, List.singleton_append] using
            (ih (clean.snoc kept) known').next
      · simp only [ne_eq, own, not_false_eq_true, if_true]
        refine .here clean (.role ?_)
        rintro ⟨_, found', own'⟩
        cases found.symm.trans found'
        exact own own'

/-- Targets are outputs by the time they are looked up, so they are there if the outputs are. -/
theorem checkDrives_verdict {driven : List SignalId} {body : List Drive}
    (outputs : ∀ id ∈ entity.outputs, entity.HasRole .output id) (clean : entity.Clean earlier)
    (known : ∀ id, id ∈ driven ↔ id ∈ targetsAmong earlier) :
    entity.Verdict earlier (body.map .driven) (fun _ => True)
      (entity.checkDrives driven body) := by
  induction body generalizing earlier driven with
  | nil =>
    rw [List.map_nil]
    exact .passed (by rwa [List.append_nil]) trivial
  | cons drive rest ih =>
    rw [checkDrives, List.map_cons]
    by_cases output : drive.target ∈ entity.outputs
    · by_cases before : drive.target ∈ driven
      · rw [if_neg (not_not.mpr output), if_pos before]
        exact .here clean (.driver output ((known _).mp before))
      · have free : drive.target ∉ targetsAmong earlier := mt (known _).mpr before
        obtain ⟨signal, found, _⟩ := outputs _ output
        rw [if_neg (not_not.mpr output), if_neg before, Arena.get_eq_ok.mpr found]
        by_cases fits : drive.value.width = signal.type.width.toNat
        · have kept := not_breaks_driven output free found fits
          have known' (id : SignalId) : id ∈ drive.target :: driven ↔
              id ∈ targetsAmong (earlier ++ [.driven drive]) := by
            rw [List.mem_cons, known, mem_targetsAmong_snoc, or_comm]
          simp only [fits, ne_eq, not_true, if_false]
          exact (ih (clean.snoc kept) known').next
        · simp only [ne_eq, fits, not_false_eq_true, if_true]
          exact .here clean (.width output free found fits)
    · rw [if_pos output]
      exact .here clean (.target output)

theorem check_verdict (entity : Entity) :
    entity.Verdict [] entity.items (fun _ => True) entity.check := by
  have untargeted (role : Role) (ids : List SignalId) :
      targetsAmong (ids.map (.listed role)) = [] := by
    simp [targetsAmong, List.filterMap_map]
  rw [check, items, List.append_assoc]
  refine (checkListed_verdict clean_nil fun _ => Iff.rfl).bind fun inputNames clean known => ?_
  refine (checkListed_verdict clean known).bind fun _ clean _ => ?_
  refine checkDrives_verdict ?_ clean ?_
  · intro id member
    exact clean.hasRole (List.mem_append_right _ (List.mem_map_of_mem member))
  · intro id
    rw [List.nil_append, targetsAmong_append, untargeted, untargeted, List.append_nil]

/-! ## Searching an entity that passed -/

/-- The entity has the signal, under the name. -/
def HasName (entity : Entity) (name : Name) (id : SignalId) : Prop :=
  ∃ signal, entity.signal? id = some signal ∧ signal.name = name

/-- Whatever is asked of the entity has an answer, and no other answer would do: the listed signals
are those of the listed slots, a name finds the one listed signal that has it, and a target has the
drive that is given or none. -/
structure Searchable (entity : Entity) : Prop where
  inputs : ∃ signals, entity.inputSignals = .ok signals ∧
    List.Forall₂ (fun id signal => entity.signal? id = some signal) entity.inputs signals
  outputs : ∃ signals, entity.outputSignals = .ok signals ∧
    List.Forall₂ (fun id signal => entity.signal? id = some signal) entity.outputs signals
  find : ∀ name, ∃ found, entity.find name = .ok found ∧
    ∀ id, found = some id ↔ id ∈ entity.inputs ++ entity.outputs ∧ entity.HasName name id
  drives : ∀ target,
    entity.body.filter (·.target == target) = (entity.driveOf? target).toList

theorem signals_of_found {ids : List SignalId}
    (found : ∀ id ∈ ids, ∃ signal, entity.signal? id = some signal) :
    ∃ signals, ids.mapM entity.signals.get = .ok signals ∧
      List.Forall₂ (fun id signal => entity.signal? id = some signal) ids signals := by
  obtain ⟨signals, done⟩ := mapM_ok fun id member =>
    (found id member).imp fun _ own => Arena.get_eq_ok.mpr own
  refine ⟨signals, done, (mapM_eq_ok.mp done).imp fun id signal own => ?_⟩
  exact Arena.get_eq_ok.mp own

/-- A search among signals that are there ends with the first that has the name. -/
theorem findAmong_cases (name : Name) {ids : List SignalId}
    (found : ∀ id ∈ ids, ∃ signal, entity.signal? id = some signal) :
    (∃ id ∈ ids, entity.HasName name id ∧ entity.findAmong name ids = .ok (some id)) ∨
      (∀ id ∈ ids, ¬ entity.HasName name id) ∧ entity.findAmong name ids = .ok none := by
  induction ids with
  | nil => exact .inr ⟨fun _ member => absurd member List.not_mem_nil, rfl⟩
  | cons id rest ih =>
    obtain ⟨⟨signal, own⟩, more⟩ := List.forall_mem_cons.mp found
    have next : entity.findAmong name (id :: rest) =
        if signal.name = name then .ok (some id) else entity.findAmong name rest := by
      rw [findAmong, Arena.get_eq_ok.mpr own]
      rfl
    rw [next]
    by_cases same : signal.name = name
    · exact .inl ⟨id, List.mem_cons_self, ⟨signal, own, same⟩, if_pos same⟩
    · rw [if_neg same]
      have other : ¬ entity.HasName name id := by
        rintro ⟨signal', own', same'⟩
        cases own.symm.trans own'
        exact same same'
      rcases ih more with ⟨id', member, named, done⟩ | ⟨none, done⟩
      · exact .inl ⟨id', List.mem_cons_of_mem _ member, named, done⟩
      · exact .inr ⟨List.forall_mem_cons.mpr ⟨other, none⟩, done⟩

/-- Of items with different keys at most one has a given key. -/
theorem filter_eq_find? {α κ : Type} [DecidableEq κ] {key : α → κ} {items : List α}
    (distinct : (items.map key).Nodup) (wanted : κ) :
    items.filter (key · == wanted) = (items.find? (key · == wanted)).toList := by
  induction items with
  | nil => rfl
  | cons item rest ih =>
    obtain ⟨fresh, distinct⟩ := List.nodup_cons.mp distinct
    by_cases same : key item = wanted
    · have others : rest.filter (key · == wanted) = [] := by
        refine List.filter_eq_nil_iff.mpr fun other member own => fresh ?_
        rw [same, ← eq_of_beq own]
        exact List.mem_map_of_mem member
      simp [same, others]
    · simpa [same] using ih distinct

theorem WellFormed.searchable (wellFormed : entity.WellFormed) : entity.Searchable where
  inputs := signals_of_found fun _ member => wellFormed.listed (List.mem_append_left _ member)
  outputs := signals_of_found fun _ member => wellFormed.listed (List.mem_append_right _ member)
  find name := by
    rcases findAmong_cases name fun _ => wellFormed.listed with
      ⟨id, member, named, done⟩ | ⟨none, done⟩
    · refine ⟨some id, done, fun other => ⟨?_, ?_⟩⟩
      · rintro ⟨⟩
        exact ⟨member, named⟩
      · rintro ⟨member', signal', own', rfl⟩
        obtain ⟨signal, own, same⟩ := named
        exact congrArg some (wellFormed.eq_of_name member member' own own' same)
    · refine ⟨_, done, fun other => ⟨nofun, ?_⟩⟩
      rintro ⟨member, named⟩
      exact absurd named (none other member)
  drives := filter_eq_find? wellFormed.single

/-! ## The check -/

/-- The check meets no fault. It passes exactly well-formed entities, and any other is reported with
the violation of the first item at fault. An entity that passes can be searched. -/
theorem check_reports_first (entity : Entity) :
    entity.check.Unbroken ∧ (entity.check = .ok () ↔ entity.WellFormed) ∧
      (∀ violation, entity.check = .refuse violation ↔ entity.FirstViolation violation) ∧
      (entity.check = .ok () → entity.Searchable) :=
  ⟨entity.check_verdict.unbroken, check_eq_ok, fun _ => entity.check_verdict.refused_iff,
    fun passed => (check_eq_ok.mp passed).searchable⟩

end HdlPorts.Entity

namespace HdlPorts

namespace Sample

/-- An input and an output, with the given drives. -/
def withDrives (body : List Drive) : Entity where
  name := ⟨0⟩
  signals := ⟨[.input ⟨1⟩ .bit .dummy, .output ⟨2⟩ .bit .dummy]⟩
  inputs := [⟨0⟩]
  outputs := [⟨1⟩]
  body := body
  digest := .ofBytes []
  span := .dummy

def drivenOnce : Entity := withDrives [⟨⟨1⟩, .zeros 1, .dummy⟩]

/-- The output is driven once more, and too wide, before the input is driven. -/
def overdriven : Entity :=
  withDrives [⟨⟨1⟩, .zeros 1, .dummy⟩, ⟨⟨1⟩, .zeros 2, .dummy⟩, ⟨⟨0⟩, .zeros 1, .dummy⟩]

end Sample

/-- The second drive of an output is at fault before its width is, and before later drives are. -/
theorem Entity.check_reports_first_overdriven :
    (Sample.drivenOnce.check = .ok () ∧ Sample.drivenOnce.find ⟨2⟩ = .ok (some ⟨1⟩)) ∧
      Sample.overdriven.check = .refuse (.multipleDrivers ⟨1⟩) ∧
      Sample.overdriven.FirstViolation (.multipleDrivers ⟨1⟩) := by
  have passed : Sample.drivenOnce.check = .ok () := rfl
  have refused : Sample.overdriven.check = .refuse (.multipleDrivers ⟨1⟩) := rfl
  obtain ⟨_, _, _, searchable⟩ := Entity.check_reports_first Sample.drivenOnce
  obtain ⟨found, done, named⟩ := (searchable passed).find ⟨2⟩
  have output : found = some ⟨1⟩ := (named ⟨1⟩).mpr ⟨by decide, _, rfl, rfl⟩
  obtain ⟨_, _, reported, _⟩ := Entity.check_reports_first Sample.overdriven
  exact ⟨⟨passed, output ▸ done⟩, refused, (reported _).mp refused⟩

end HdlPorts
