import HdlPorts.Proofs.TargetWidth
import HdlPorts.Proofs.ValueTexts
import Mathlib.Tactic.Ring

/-! Bits as the digits of a number.

A list of bits, all of them known, stands for the sum of the bits' codes, each times two to the power
of its place. Reading a bit off the number gives the bit back, so an operation on bits is followed on
numbers: bit by bit for the logical operators, by a multiple for lists one above the other, and
modulo a power of two for sums and differences.
-/

set_option autoImplicit false

namespace HdlPorts

variable {bits left right : List Logic}

namespace Logic

theorem code_ofBool (value : Bool) : (ofBool value).code = value.toNat := by
  cases value <;> rfl

theorem isKnown_ofBool (value : Bool) : (ofBool value).isKnown = true := by
  cases value <;> rfl

end Logic

theorem lt_two_pow_minimalWidth (value : Nat) : value < 2 ^ minimalWidth value := by
  unfold minimalWidth
  split
  · next zero => simp [zero]
  · exact Nat.lt_log2_self

/-- A number that has some digits does not need more. -/
theorem minimalWidth_le {value width : Nat} (small : value < 2 ^ width) (positive : 0 < width) :
    minimalWidth value ≤ width := by
  unfold minimalWidth
  split
  · exact positive
  · next nonzero => exact (Nat.log2_lt nonzero).mpr small

namespace LogicVector

theorem known_binary (value width : Nat) : (binary value width).all Logic.isKnown = true := by
  simp [binary, Logic.isKnown_ofBool]

theorem binary_succ (value width : Nat) :
    binary value (width + 1) = Logic.ofBool (value.testBit 0) :: binary (value / 2) width := by
  simp only [binary, List.range_succ_eq_map, List.map_cons, List.map_map, List.cons.injEq, true_and]
  refine List.map_congr_left fun place _ => ?_
  simp [Nat.testBit_succ]

/-- The lowest digits of a number stand for what is left of it. -/
theorem number_binary (value width : Nat) : number (binary value width) = value % 2 ^ width := by
  induction width generalizing value with
  | zero => simp [binary, number, Nat.mod_one]
  | succ width ih =>
    rw [binary_succ, number, ih, Logic.code_ofBool, Nat.testBit_zero, pow_succ',
      Nat.mod_mul]
    rcases Nat.mod_two_eq_zero_or_one value with even | odd
    · simp [even]
    · simp [odd]

theorem number_append (low high : List Logic) :
    number (low ++ high) = number high <<< low.length + number low := by
  induction low with
  | nil => simp [number]
  | cons bit rest ih =>
    rw [List.cons_append, number, ih, number, List.length_cons,
      Nat.shiftLeft_eq, Nat.shiftLeft_eq, pow_succ]
    ring

/-- A digit of the number is one where the bit is. -/
theorem testBit_number (known : bits.all Logic.isKnown = true) (index : Nat) :
    (number bits).testBit index = (bits[index]? == some .one) := by
  induction bits generalizing index with
  | nil => simp [number]
  | cons bit rest ih =>
    obtain ⟨own, others⟩ := Bool.and_eq_true_iff.mp known
    have digit := code_of_known own
    cases index with
    | zero =>
      rw [number, Nat.testBit_zero, List.getElem?_cons_zero]
      cases bit with
      | zero => simp [Logic.code]
      | one => simp [Logic.code, Nat.add_mod]
      | x | z => cases own
    | succ index =>
      have half : number (bit :: rest) / 2 = number rest := by
        rw [number]
        omega
      rw [Nat.testBit_succ, half, ih others, List.getElem?_cons_succ]

theorem number_replicate_zero (count : Nat) : number (List.replicate count .zero) = 0 :=
  number_append_zeros [] count

theorem number_replicate_one (count : Nat) :
    number (List.replicate count .one) = 2 ^ count - 1 := by
  induction count with
  | zero => rfl
  | succ count ih =>
    have positive := Nat.two_pow_pos count
    rw [List.replicate_succ, number, ih, Logic.code, pow_succ]
    omega

/-- The complement of a number counts down from the largest of its width. -/
theorem number_map_not (known : bits.all Logic.isKnown = true) :
    number (bits.map Logic.not) = 2 ^ bits.length - 1 - number bits := by
  induction bits with
  | nil => rfl
  | cons bit rest ih =>
    obtain ⟨own, others⟩ := Bool.and_eq_true_iff.mp known
    have bound : number rest < 2 ^ rest.length := number_lt others
    have digit : bit.not.code = 1 - bit.code ∧ bit.code < 2 := by
      cases bit with
      | zero | one => decide
      | x | z => cases own
    rw [List.map_cons, number, ih others, number, List.length_cons, pow_succ]
    omega

/-- Known bits are truth values. -/
theorem exists_ofBool (known : bits.all Logic.isKnown = true) :
    ∃ values : List Bool, bits = values.map Logic.ofBool := by
  induction bits with
  | nil => exact ⟨[], rfl⟩
  | cons bit rest ih =>
    obtain ⟨own, others⟩ := Bool.and_eq_true_iff.mp known
    obtain ⟨values, rfl⟩ := ih others
    cases bit with
    | zero => exact ⟨false :: values, rfl⟩
    | one => exact ⟨true :: values, rfl⟩
    | x | z => cases own

theorem known_map_ofBool (values : List Bool) :
    (values.map Logic.ofBool).all Logic.isKnown = true := by
  simp [Logic.isKnown_ofBool]

theorem testBit_number_map (values : List Bool) (index : Nat) :
    (number (values.map Logic.ofBool)).testBit index = values[index]?.getD false := by
  rw [testBit_number (known_map_ofBool values), List.getElem?_map]
  cases values[index]? with
  | none => rfl
  | some value => cases value <;> rfl

/-- An operator on bits is the operator on numbers that does the same to every digit. -/
theorem number_zipWith {op : Logic → Logic → Logic} {opNat : Nat → Nat → Nat}
    {opBool : Bool → Bool → Bool} (agree : ∀ a b, op (.ofBool a) (.ofBool b) = .ofBool (opBool a b))
    (digit : ∀ a b index,
      (opNat a b).testBit index = opBool (a.testBit index) (b.testBit index))
    (above : opBool false false = false) (same : left.length = right.length)
    (knownLeft : left.all Logic.isKnown = true) (knownRight : right.all Logic.isKnown = true) :
    (List.zipWith op left right).all Logic.isKnown = true ∧
      number (List.zipWith op left right) = opNat (number left) (number right) := by
  obtain ⟨first, rfl⟩ := exists_ofBool knownLeft
  obtain ⟨second, rfl⟩ := exists_ofBool knownRight
  have values : List.zipWith op (first.map Logic.ofBool) (second.map Logic.ofBool) =
      (List.zipWith opBool first second).map Logic.ofBool := by
    simp only [List.zipWith_map, List.map_zipWith, agree]
  rw [values]
  refine ⟨known_map_ofBool _, Nat.eq_of_testBit_eq fun index => ?_⟩
  rw [testBit_number_map, digit, testBit_number_map, testBit_number_map, List.getElem?_zipWith]
  simp only [List.length_map] at same
  by_cases bound : index < first.length
  · rw [List.getElem?_eq_getElem bound, List.getElem?_eq_getElem (same ▸ bound)]
    rfl
  · rw [List.getElem?_eq_none (Nat.le_of_not_lt bound),
      List.getElem?_eq_none (same ▸ Nat.le_of_not_lt bound)]
    exact above.symm

end LogicVector

end HdlPorts
