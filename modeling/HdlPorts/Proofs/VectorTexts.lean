import HdlPorts.Proofs.LiteralForms
import HdlPorts.Proofs.Numbers
import HdlPorts.Proofs.VectorOperations

/-! Vectors, their digits and their numbers.

The digits of a vector are written highest bit first and are read back to the packed form of its
bits, and so is its number at its width, if it has one. What is read from a text is written again
without underscores and with each bit in one spelling.
-/

set_option autoImplicit false

namespace HdlPorts

/-! ## Digits -/

namespace Logic

/-- The spelling of a digit that bits are written with. -/
def spelling : Char → Char
  | 'x' => 'X'
  | 'z' | '?' => 'Z'
  | digit => digit

theorem toChar_of_ofChar? {char : Char} {bit : Logic} (read : ofChar? char = some bit) :
    bit.toChar = spelling char := by
  have listed := Literal.fill_of_ofChar? read
  have each : ∀ char ∈ Literal.fills, (ofChar? char).map toChar = some (spelling char) := by
    simp [Literal.fills, ofChar?, toChar, spelling]
  have own := each char listed
  rw [read] at own
  exact Option.some.inj own

theorem ofChar?_of_fill {char : Char} (digit : char ∈ Literal.fills) :
    ∃ bit, ofChar? char = some bit := by
  have each : ∀ char ∈ Literal.fills, (ofChar? char).isSome = true := by
    simp [Literal.fills, ofChar?]
  exact Option.isSome_iff_exists.mp (each char digit)

end Logic

namespace LogicVector

variable {v : LogicVector} {bits : List Logic} {text : String}

theorem digits_of_bits (read : v.bits = .ok bits) :
    v.digits = .ok (String.ofList (bits.reverse.map Logic.toChar)) := by
  rw [digits, read]
  rfl

/-- Digits are read back, whatever vector they were written for. -/
theorem parse?_digits (nonempty : bits ≠ []) :
    parse? (String.ofList (bits.reverse.map Logic.toChar)) = some (ofBits bits) := by
  have plain : (bits.reverse.map Logic.toChar).filter (· != '_') =
      bits.reverse.map Logic.toChar := by
    refine List.filter_eq_self.mpr fun char member => ?_
    obtain ⟨bit, _, rfl⟩ := List.mem_map.mp member
    cases bit <;> rfl
  refine parse?_eq_some.mpr ⟨bits.reverse, ?_, ?_, ?_⟩
  · rw [String.toList_ofList, plain, mapM_eq_some, List.forall₂_map_left_iff, List.forall₂_same]
    exact fun bit _ => bit.ofChar?_toChar
  · simpa using nonempty
  · rw [List.reverse_reverse]

/-- Reading a text looks at each character that is not an underscore on its own. -/
theorem map_toChar_of_mapM {chars : List Char} {digits : List Logic}
    (each : List.Forall₂ (fun char bit => Logic.ofChar? char = some bit) chars digits) :
    digits.map Logic.toChar = chars.map Logic.spelling := by
  induction each with
  | nil => rfl
  | cons own _ ih => rw [List.map_cons, List.map_cons, ih, Logic.toChar_of_ofChar? own]

/-- What is read is written again, without underscores and each bit in one spelling. -/
theorem digits_of_parse? (read : parse? text = some v) :
    v.digits = .ok (String.ofList ((Literal.written text).map Logic.spelling)) := by
  obtain ⟨digits, each, _, rfl⟩ := parse?_eq_some.mp read
  rw [digits_of_bits (bits_ofBits _), List.reverse_reverse,
    map_toChar_of_mapM (mapM_eq_some.mp each)]
  rfl

/-- A text is read if all its characters are digits and underscores, and not all of them are
underscores. -/
theorem exists_parse?_iff : (∃ v, parse? text = some v) ↔
    Literal.written text ≠ [] ∧ ∀ char ∈ Literal.written text, char ∈ Literal.fills := by
  simp only [parse?_eq_some]
  constructor
  · rintro ⟨_, digits, done, nonempty, _⟩
    have each := mapM_eq_some.mp done
    refine ⟨?_, fun char member => ?_⟩
    · rw [← List.length_pos_iff, Literal.written, each.length_eq]
      exact List.length_pos_iff.mpr nonempty
    · obtain ⟨bit, _, own⟩ := exists_of_forall₂ each.flip member
      exact Literal.fill_of_ofChar? own
  · rintro ⟨nonempty, each⟩
    obtain ⟨digits, done⟩ := mapM_some fun char member => Logic.ofChar?_of_fill (each char member)
    refine ⟨_, digits, done, ?_, rfl⟩
    rw [← List.length_pos_iff, ← (mapM_eq_some.mp done).length_eq]
    exact List.length_pos_iff.mpr nonempty

/-- A text is not read if it has a character that is neither a digit nor an underscore, or no
digit. -/
theorem parse?_eq_none : parse? text = none ↔
    (∃ char ∈ text.toList, char ≠ '_' ∧ char ∉ Literal.fills) ∨
      ∀ char ∈ text.toList, char ∉ Literal.fills := by
  have listed (char : Char) : char ∈ Literal.written text ↔ char ∈ text.toList ∧ char ≠ '_' := by
    rw [Literal.written, List.mem_filter, bne_iff_ne]
  have plain : '_' ∉ Literal.fills := by decide
  rw [Option.eq_none_iff_forall_ne_some, ← not_exists, exists_parse?_iff]
  constructor
  · intro unread
    by_cases each : ∀ char ∈ Literal.written text, char ∈ Literal.fills
    · refine .inr fun char member digit => unread ⟨?_, each⟩
      have own := (listed char).mpr ⟨member, fun same => plain (same ▸ digit)⟩
      exact List.ne_nil_of_mem own
    · simp only [not_forall] at each
      obtain ⟨char, member, other⟩ := each
      obtain ⟨member, kept⟩ := (listed char).mp member
      exact .inl ⟨char, member, kept, other⟩
  · rintro (⟨char, member, kept, other⟩ | nowhere) ⟨nonempty, each⟩
    · exact other (each char ((listed char).mpr ⟨member, kept⟩))
    · obtain ⟨char, member⟩ := List.exists_mem_of_ne_nil _ nonempty
      exact nowhere char ((listed char).mp member).1 (each char member)

end LogicVector

/-! ## Numbers -/

namespace LogicVector

variable {v : LogicVector} {number : UInt64} {width : Nat}

theorem readable_ofUInt64 (number : UInt64) (width : Nat) :
    (ofUInt64 number width).readable = binary number.toNat width :=
  readable_ofBits _

/-- A number fits the width of the vector it was read off, and has the vector's bits there. -/
theorem ofUInt64_of_counted (counted : v.toUInt64? = .ok (some number)) :
    number.toNat < 2 ^ v.width ∧ ofUInt64 number v.width = ofBits v.readable := by
  obtain ⟨complete, _, known, _⟩ := toUInt64?_some counted
  have length := length_readable complete
  have bound : number.toNat < 2 ^ v.width := by
    rw [toNat_of_counted counted, ← length]
    exact number_lt known
  refine ⟨bound, congrArg ofBits (eq_of_number (known_binary _ _) known ?_ ?_)⟩
  · rw [length_binary, length]
  · rw [number_binary, Nat.mod_eq_of_lt bound, toNat_of_counted counted]

theorem counted_of_known (complete : v.Complete) (narrow : v.width ≤ 64)
    (known : v.readable.all Logic.isKnown = true) :
    ∃ number, v.toUInt64? = .ok (some number) ∧ number.toNat = LogicVector.number v.readable := by
  have counted := toUInt64?_of_complete complete
  rw [if_neg] at counted
  · exact ⟨_, counted, toNat_of_counted counted⟩
  · rintro (wide | unknown)
    · exact absurd narrow (Nat.not_le.mpr wide)
    · obtain ⟨bit, member, other⟩ := List.any_eq_true.mp unknown
      rw [List.all_eq_true.mp known bit member] at other
      cases other

/-- A vector has a number if it has at most 64 bits and all of them are known. -/
theorem counted_iff (complete : v.Complete) : ∃ number?, v.toUInt64? = .ok number? ∧
    (number?.isSome = true ↔ v.width ≤ 64 ∧
      ∀ index < v.width, ∃ bit, v.get index = .ok bit ∧ bit.isKnown = true) := by
  have read := toUInt64?_of_complete complete
  refine ⟨_, read, ?_⟩
  rw [← forall_readable_iff complete (·.isKnown = true), ← List.all_eq_true]
  constructor
  · intro counted
    obtain ⟨number, own⟩ := Option.isSome_iff_exists.mp counted
    obtain ⟨_, narrow, known, _⟩ := toUInt64?_some (read.trans (congrArg _ own))
    exact ⟨narrow, known⟩
  · rintro ⟨narrow, known⟩
    obtain ⟨number, counted, _⟩ := counted_of_known complete narrow known
    rw [Except.ok.inj (read.symm.trans counted)]
    rfl

/-- What is left of a number at a width is read off again. -/
theorem toUInt64?_ofUInt64 (number : UInt64) (narrow : width ≤ 64) :
    ∃ result, (ofUInt64 number width).toUInt64? = .ok (some result) ∧
      result.toNat = number.toNat % 2 ^ width := by
  have known : (ofUInt64 number width).readable.all Logic.isKnown = true := by
    rw [readable_ofUInt64, known_binary]
  obtain ⟨result, counted, same⟩ := counted_of_known (complete_ofUInt64 number width)
    ((length_binary _ _).trans_le narrow) known
  refine ⟨result, counted, ?_⟩
  rw [same, readable_ofUInt64, number_binary]

/-- A number has no digits from the 64th on. -/
theorem get_ofUInt64 {index : Nat} (number : UInt64) (above : 64 ≤ index) (below : index < width) :
    (ofUInt64 number width).get index = .ok .zero := by
  have bound : number.toNat < 2 ^ index :=
    Nat.lt_of_lt_of_le number.toNat_lt (Nat.pow_le_pow_right Nat.two_pos above)
  rw [get_eq_ok (complete_ofUInt64 number width), readable_ofUInt64, binary, List.getElem?_map,
    List.getElem?_range below, Option.map_some, Nat.testBit_lt_two_pow bound]
  rfl

/-- The digits and the number of the first vector are read back to the second one. -/
structure ReadsBack (v w : LogicVector) : Prop where
  digits : 0 < v.width → ∃ text, v.digits = .ok text ∧ parse? text = some w
  number : ∀ number, v.toUInt64? = .ok (some number) →
    number.toNat < 2 ^ v.width ∧ ofUInt64 number v.width = w

theorem readsBack_of_complete (complete : v.Complete) : v.ReadsBack (ofBits v.readable) := by
  refine ⟨fun positive => ?_, fun number counted => ofUInt64_of_counted counted⟩
  refine ⟨_, digits_of_bits (bits_of_complete complete), parse?_digits ?_⟩
  rw [← List.length_pos_iff, length_readable complete]
  exact positive

/-- Packed vectors are read back from their digits and from their numbers, and other vectors that
have all their words to the packed form of their bits. The vectors that have a number, the numbers
that are read off what was made of a number, the digits written for a text and the texts that are
not read are told as well. -/
theorem conversions_invert :
    (∀ v : LogicVector, v.Packed → v.ReadsBack v) ∧
      (∀ v : LogicVector, v.Complete → v.ReadsBack (ofBits v.readable) ∧
        ∃ number?, v.toUInt64? = .ok number? ∧ (number?.isSome = true ↔ v.width ≤ 64 ∧
          ∀ index < v.width, ∃ bit, v.get index = .ok bit ∧ bit.isKnown = true)) ∧
      (∀ number width, width ≤ 64 →
        ∃ result, (ofUInt64 number width).toUInt64? = .ok (some result) ∧
          result.toNat = number.toNat % 2 ^ width) ∧
      (∀ number width index, 64 ≤ index → index < width →
        (ofUInt64 number width).get index = .ok .zero) ∧
      (∀ text v, parse? text = some v →
        v.digits = .ok (String.ofList ((Literal.written text).map Logic.spelling))) ∧
      ∀ text, parse? text = none ↔
        (∃ char ∈ text.toList, char ≠ '_' ∧ char ∉ Literal.fills) ∨
          ∀ char ∈ text.toList, char ∉ Literal.fills := by
  refine ⟨?_, ?_, ?_, ?_, ?_, ?_⟩
  · intro v packed
    have own := readsBack_of_complete packed.complete
    rwa [packed.ofBits_readable] at own
  · intro v complete
    exact ⟨readsBack_of_complete complete, counted_iff complete⟩
  · intro number width narrow
    exact toUInt64?_ofUInt64 number narrow
  · intro number width index above below
    exact get_ofUInt64 number above below
  · intro text v read
    exact digits_of_parse? read
  · intro text
    exact parse?_eq_none

/-- The text of a filled vector that reaches into a second word is read back; a text with a digit
that bits do not have is not read, and neither is one without digits. -/
theorem conversions_invert_secondWord :
    (∃ text, (filled 33 .x).digits = .ok text ∧ parse? text = some (filled 33 .x)) ∧
      parse? "102" = none ∧ parse? "__" = none := by
  obtain ⟨packed, _, _, _, _, unread⟩ := conversions_invert
  have own := (packed (filled 33 .x) (packed_ofBits _)).digits (by decide)
  have other := (unread "102").mpr (.inl ⟨'2', by decide, by decide, by decide⟩)
  have empty := (unread "__").mpr (.inr (by simp [Literal.fills]))
  exact ⟨own, other, empty⟩

end LogicVector

end HdlPorts
