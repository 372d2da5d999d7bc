import HdlPorts.Proofs.Attempts
import HdlPorts.Names
import Mathlib.Data.List.Basic

/-! A table of names only grows.

Keys and texts correspond one to one, a key keeps its text in every later table, and a text that was
entered before is not entered again.
-/

set_option autoImplicit false

namespace HdlPorts.Names

variable {names later : Names} {name other : Name} {text : String}

/-- The later table has all texts of the earlier one in their places. -/
def Grows (names later : Names) : Prop := names.texts <+: later.texts

/-- The name has a text in the table. -/
def Holds (names : Names) (name : Name) : Prop := name.key < names.size

instance (names : Names) (name : Name) : Decidable (names.Holds name) :=
  inferInstanceAs (Decidable (_ < _))

/-- The text of a name of this table. -/
def label (names : Names) (name : Name) : String := (names.text? name).getD ""

theorem Grows.refl (names : Names) : names.Grows names := List.prefix_rfl

theorem Grows.trans {last : Names} (first : names.Grows later) (second : later.Grows last) :
    names.Grows last :=
  List.IsPrefix.trans first second

theorem Grows.text? (grows : names.Grows later) (found : names.text? name = some text) :
    later.text? name = some text := by
  obtain ⟨more, same⟩ := grows
  unfold Names.text? at found ⊢
  rw [← same, List.getElem?_append_left (List.getElem?_eq_some_iff.mp found).1]
  exact found

theorem text_eq_ok : names.text name = .ok text ↔ names.text? name = some text := by
  unfold Names.text
  cases names.text? name with
  | none => simp
  | some other => simp

theorem Grows.text_ok (grows : names.Grows later) (found : names.text name = .ok text) :
    later.text name = .ok text :=
  text_eq_ok.mpr (grows.text? (text_eq_ok.mp found))

theorem Grows.holds (grows : names.Grows later) (holds : names.Holds name) : later.Holds name :=
  Nat.lt_of_lt_of_le holds grows.length_le

theorem text?_label (holds : names.Holds name) : names.text? name = some (names.label name) := by
  unfold label Names.text?
  rw [List.getElem?_eq_getElem holds]
  rfl

theorem label_of_text? (found : names.text? name = some text) : names.label name = text := by
  rw [label, found]
  rfl

theorem text_label (holds : names.Holds name) : names.text name = .ok (names.label name) :=
  text_eq_ok.mpr (text?_label holds)

/-- Different keys stand for different texts. -/
theorem eq_of_text? (first : names.text? name = some text) (second : names.text? other = some text) :
    name = other := by
  unfold Names.text? at first second
  obtain ⟨bound, _⟩ := List.getElem?_eq_some_iff.mp first
  -- No text is in the table twice, so equal texts are at equal positions.
  have same : name.key = other.key :=
    (List.getElem?_inj bound names.nodup).mp (first.trans second.symm)
  cases name
  cases other
  exact congrArg Name.mk same

theorem text?_intern (names : Names) (text : String) :
    (names.intern text).2.text? (names.intern text).1 = some text := by
  unfold intern
  split
  · next present => exact List.getElem?_idxOf present
  · exact List.getElem?_concat_length

theorem grows_intern (names : Names) (text : String) : names.Grows (names.intern text).2 := by
  unfold intern
  split
  · exact Grows.refl names
  · exact List.prefix_append _ _

/-- Entering a text again finds its key and leaves the table as it is. -/
theorem intern_of_text? (found : names.text? name = some text) :
    names.intern text = (name, names) := by
  have present : text ∈ names.texts := List.mem_of_getElem? found
  -- Entering finds some key of the text, and there is only one.
  have again := text?_intern names text
  rw [intern, dif_pos present] at again ⊢
  rw [eq_of_text? found again]

theorem Grows.intern (grows : (names.intern text).2.Grows later) :
    later.intern text = ((names.intern text).1, later) :=
  intern_of_text? (grows.text? (text?_intern names text))

theorem Grows.text_persists {ε : Type} (grows : names.Grows later) (name : Name) :
    (Attempt.ofChecked (names.text name) : Attempt ε String).Persists
      (Attempt.ofChecked (later.text name)) := by
  intro unbroken
  unfold Names.text at unbroken ⊢
  cases found : names.text? name with
  | none =>
    rw [found] at unbroken
    exact absurd rfl (unbroken .unknownName)
  | some text => rw [grows.text? found]

end HdlPorts.Names
