import HdlPorts.Bits.Text
import HdlPorts.Proofs.Attempts
import HdlPorts.Proofs.Vectors
import Mathlib.Data.List.Basic

/-! The value text of a vector.

A vector is written as a number where it is one, otherwise as its width, a mark and its digits. The
number does not show the width, so the text alone is not enough to get the bits back; the text and
the width are.
-/

set_option autoImplicit false

namespace HdlPorts

theorem Logic.toChar_injective {first second : Logic} (same : first.toChar = second.toChar) :
    first = second := by
  have read := first.ofChar?_toChar
  rw [same, second.ofChar?_toChar] at read
  exact (Option.some.inj read).symm

/-! ## Numbers -/

theorem toDigits_injective {first second : Nat}
    (same : Nat.toDigits 10 first = Nat.toDigits 10 second) : first = second := by
  have := congrArg (Nat.ofDigitChars 10 · 0) same
  simpa only [Nat.ofDigitChars_ten_toDigits] using this

theorem toDigits_all (number : Nat) : (Nat.toDigits 10 number).all Char.isDigit = true :=
  List.all_eq_true.mpr fun _ => Nat.isDigit_of_mem_toDigits (by decide) (by decide)

namespace LogicVector

variable {first second bits : List Logic}

theorem code_of_known {bit : Logic} (known : bit.isKnown = true) : bit.code < 2 := by
  cases bit with
  | zero | one => decide
  | x | z => cases known

theorem code_injective {bit other : Logic} (same : bit.code = other.code) : bit = other := by
  rw [← Logic.ofCode_code bit, same, Logic.ofCode_code]

theorem number_lt (known : bits.all Logic.isKnown = true) :
    number bits < Nat.pow 2 bits.length := by
  induction bits with
  | nil => exact Nat.one_pos
  | cons bit rest ih =>
    obtain ⟨own, others⟩ := Bool.and_eq_true_iff.mp known
    have low := code_of_known own
    have high := ih others
    change bit.code + 2 * number rest < Nat.pow 2 rest.length * 2
    omega

/-- Known bits are the binary digits of their number. -/
theorem eq_of_number (known : first.all Logic.isKnown = true)
    (known' : second.all Logic.isKnown = true) (length : first.length = second.length)
    (same : number first = number second) : first = second := by
  induction first generalizing second with
  | nil => exact (List.length_eq_zero_iff.mp length.symm).symm
  | cons bit rest ih =>
    cases second with
    | nil => cases length
    | cons bit' rest' =>
      obtain ⟨own, others⟩ := Bool.and_eq_true_iff.mp known
      obtain ⟨own', others'⟩ := Bool.and_eq_true_iff.mp known'
      have low := code_of_known own
      have low' := code_of_known own'
      rw [number, number] at same
      rw [code_injective (show bit.code = bit'.code by omega),
        ih others others' (Nat.succ.inj length) (by omega)]

/-- A vector is a number if it has at most 64 bits and all of them are known. -/
theorem toUInt64?_some {v : LogicVector} {word : UInt64} (counted : v.toUInt64? = .ok (some word)) :
    v.Complete ∧ v.width ≤ 64 ∧ v.readable.all Logic.isKnown = true ∧
      word = UInt64.ofNat (number v.readable) := by
  unfold toUInt64? at counted
  split at counted
  · cases counted
  · next narrow =>
    split at counted
    · cases counted
    · next known =>
      split at counted
      · next complete =>
        cases counted
        exact ⟨complete, Nat.le_of_not_lt narrow, by simpa using known, rfl⟩
      · cases counted

/-- Nothing is cut off when the number of a vector becomes a word. -/
theorem toNat_of_counted {v : LogicVector} {word : UInt64}
    (counted : v.toUInt64? = .ok (some word)) : word.toNat = number v.readable := by
  obtain ⟨complete, narrow, known, rfl⟩ := toUInt64?_some counted
  rw [← length_readable complete] at narrow
  exact UInt64.toNat_ofNat_of_lt'
    (Nat.lt_of_lt_of_le (number_lt known) (Nat.pow_le_pow_right Nat.two_pos narrow))

/-! ## Value texts -/

/-- The text is how the bits are written: as a number, or with their width and digit by digit. -/
inductive Writes (bits : List Logic) (text : List Char) : Prop where
  | counted : bits.all Logic.isKnown = true → text = Nat.toDigits 10 (number bits) →
      Writes bits text
  | sized : text = Nat.toDigits 10 bits.length ++ quote :: 'b' :: bits.reverse.map Logic.toChar →
      Writes bits text

/-- A vector that has a value text can be read, and its bits are what is written. -/
theorem writes_of_valueText {v : LogicVector} {text : String} (shown : v.valueText = .ok text) :
    ∃ bits, v.bits = .ok bits ∧ Writes bits text.toList := by
  obtain ⟨number?, counted, shown⟩ := ok_of_bind shown
  cases number? with
  | some word =>
    cases shown
    obtain ⟨complete, _, known, _⟩ := toUInt64?_some counted
    rw [toNat_of_counted counted, Nat.toString_eq_repr, Nat.toList_repr]
    exact ⟨v.readable, bits_of_complete complete, .counted known rfl⟩
  | none =>
    obtain ⟨digits, sized, shown⟩ := ok_of_bind shown
    obtain ⟨bits, read, sized⟩ := ok_of_bind sized
    cases shown
    cases sized
    refine ⟨bits, read, .sized ?_⟩
    rw [width_of_bits read]
    simp [Char.toString]

theorem quote_not_mem_toDigits (number : Nat) : quote ∉ Nat.toDigits 10 number :=
  fun member => absurd (List.all_eq_true.mp (toDigits_all number) quote member) (by decide)

/-- Vectors of one width that are written the same have the same bits. -/
theorem Writes.eq {text : List Char} (writes : Writes first text) (writes' : Writes second text)
    (length : first.length = second.length) : first = second := by
  -- Only the sized text has the mark, so both are written in the same way.
  have marked (bits : List Logic) :
      quote ∈ Nat.toDigits 10 bits.length ++ quote :: 'b' :: bits.reverse.map Logic.toChar :=
    List.mem_append_right _ List.mem_cons_self
  cases writes with
  | counted known written =>
    subst written
    cases writes' with
    | counted known' same => exact eq_of_number known known' length (toDigits_injective same)
    | sized same => exact absurd (same ▸ marked second) (quote_not_mem_toDigits _)
  | sized written =>
    subst written
    cases writes' with
    | counted _ same => exact absurd (same ▸ marked first) (quote_not_mem_toDigits _)
    | sized same =>
      rw [length, List.append_cancel_left_eq] at same
      simp only [List.cons.injEq, true_and] at same
      exact List.reverse_injective
        (List.map_injective_iff.mpr (fun _ _ => Logic.toChar_injective) same)

/-- A value text is on one line. -/
theorem Writes.single_line {text : List Char} (writes : Writes bits text) :
    text.all (· != '\n') = true := by
  have digits (number : Nat) : (Nat.toDigits 10 number).all (· != '\n') = true :=
    List.all_eq_true.mpr fun char member => by
      have digit := List.all_eq_true.mp (toDigits_all number) char member
      exact bne_iff_ne.mpr fun same => absurd (same ▸ digit) (by decide)
  cases writes with
  | counted _ written =>
    rw [written]
    exact digits _
  | sized written =>
    have each : bits.all (fun bit => bit.toChar != '\n') = true :=
      List.all_eq_true.mpr fun bit _ => by cases bit <;> decide
    rw [written, List.all_append, digits, List.all_cons, List.all_cons, List.all_map,
      List.all_reverse]
    exact each

end LogicVector

end HdlPorts
