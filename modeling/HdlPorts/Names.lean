import HdlPorts.Fault

/-! The table of names.

Modules, ports and signals are called by keys, and the table says which text a key stands for. A
text gets its key when it is first entered: the number of texts entered before it. Texts are never
removed, so a key keeps its meaning, and the table holds no text twice, so equal texts have equal
keys.
-/

set_option autoImplicit false

namespace HdlPorts

structure Name where
  key : Nat
  deriving DecidableEq

/-- Pairwise different texts in the order in which they were entered. -/
structure Names where
  texts : List String
  nodup : texts.Nodup

namespace Names

def empty : Names := ⟨[], List.nodup_nil⟩

/-- The key of a text that was entered before. -/
def find? (names : Names) (text : String) : Option Name :=
  (names.texts.idxOf? text).map Name.mk

def text? (names : Names) (name : Name) : Option String := names.texts[name.key]?

/-- The text of a key, which has to be one of this table. -/
def text (names : Names) (name : Name) : Checked String :=
  match names.text? name with
  | some text => .ok text
  | none => .error .unknownName

def size (names : Names) : Nat := names.texts.length

def push (names : Names) (text : String) (fresh : text ∉ names.texts) : Names where
  texts := names.texts ++ [text]
  nodup := by
    rw [List.nodup_append]
    refine ⟨names.nodup, List.nodup_cons.2 ⟨List.not_mem_nil, List.nodup_nil⟩, ?_⟩
    intro old member new single same
    rw [List.mem_singleton] at single
    exact fresh (single ▸ same ▸ member)

/-- The key of a text, entering the text if it is new. -/
def intern (names : Names) (text : String) : Name × Names :=
  if present : text ∈ names.texts then
    (⟨names.texts.idxOf text⟩, names)
  else
    (⟨names.size⟩, names.push text present)

/-- The placeholder at one position of a reserved table. -/
def placeholder (position : Nat) : String := "#" ++ position.repr

theorem placeholder_injective {first second : Nat} (same : placeholder first = placeholder second) :
    first = second := by
  have digits : Nat.toDigits 10 first = Nat.toDigits 10 second := by
    have := congrArg String.toList same
    simpa only [placeholder, String.toList_append, List.append_cancel_left_eq, Nat.toList_repr]
      using this
  have := congrArg (Nat.ofDigitChars 10 · 0) digits
  simpa only [Nat.ofDigitChars_ten_toDigits] using this

/-- The table in which the first `count` keys are taken by placeholders. -/
def reserved (count : Nat) : Names where
  texts := (List.range count).map placeholder
  nodup := List.pairwise_map.2
    (List.nodup_range.imp fun different same => different (placeholder_injective same))

end Names

end HdlPorts
