import HdlPorts.Proofs.Evaluation
import Mathlib.Data.Int.ModEq

/-! Initializers are evaluated at the width of their target.

Evaluation widens operands one at a time, lets operators work at the larger width of the two, and
extends the result once more at the end. What this comes to can be said without all these widths:
bring every literal and every concatenation to the width of the target, and let every operator
outside concatenations work at that one width. This holds as long as nothing is wider than the
target. If something is, the widest such part is what the rejection reports.
-/

set_option autoImplicit false

namespace HdlPorts

/-! ## The reference -/

namespace LogicVector

/-- The digits of a sum or difference modulo `2 ^ n`, where both operands have `n` bits. Nothing is
known of them unless all bits of the operands are. -/
def wrapped (op : Int → Int → Int) (left right : List Logic) : List Logic :=
  if left.all Logic.isKnown && right.all Logic.isKnown then
    binary (op (number left) (number right) % 2 ^ left.length).toNat left.length
  else
    List.replicate left.length .x

end LogicVector

open LogicVector (padded binary number wrapped)

/-- The operator on operands of one width. -/
def BinaryOperator.onBits (left right : List Logic) : BinaryOperator → List Logic
  | and => List.zipWith Logic.and left right
  | or => List.zipWith Logic.or left right
  | xor => List.zipWith Logic.xor left right
  | add => wrapped (· + ·) left right
  | sub => wrapped (· - ·) left right

namespace Literal

/-- The bits of a literal with a width of its own. -/
def ownBits : Literal → List Logic
  | unsized value => binary value.toNat (minimalWidth value.toNat)
  | sized bits => bits.readable
  | fill _ => []

end Literal

namespace Expression

mutual

/-- The bits of an expression to which no width is given: operands are brought to the larger of
their widths. -/
def ownBits : Expression → List Logic
  | literal value => value.ownBits
  | not operand => operand.ownBits.map Logic.not
  | binary operator left right =>
    let width := max left.ownBits.length right.ownBits.length
    operator.onBits (padded width left.ownBits) (padded width right.ownBits)
  | concat parts => joinedBits parts

/-- The bits of the parts, those of the first part highest. -/
def joinedBits : List Expression → List Logic
  | [] => []
  | part :: rest => joinedBits rest ++ part.ownBits

end

end Expression

/-! ## Lists of bits -/

section Lists

variable {bits left right : List Logic} {width : Nat}

theorem length_padded_eq_max (width : Nat) (bits : List Logic) :
    (padded width bits).length = max width bits.length := by
  simp only [padded, List.length_append, List.length_replicate]
  omega

theorem padded_of_le (enough : width ≤ bits.length) : padded width bits = bits := by
  simp [padded, Nat.sub_eq_zero_of_le enough]

theorem number_append_zeros (bits : List Logic) (count : Nat) :
    number (bits ++ List.replicate count .zero) = number bits := by
  induction bits with
  | nil =>
    induction count with
    | zero => rfl
    | succ count ih => simpa [List.replicate_succ, number, Logic.code] using ih
  | cons bit rest ih => rw [List.cons_append, number, ih, number]

theorem number_padded (width : Nat) (bits : List Logic) :
    number (padded width bits) = number bits :=
  number_append_zeros bits _

theorem known_padded (width : Nat) (bits : List Logic) :
    (padded width bits).all Logic.isKnown = bits.all Logic.isKnown := by
  have zeros : (List.replicate (width - bits.length) Logic.zero).all Logic.isKnown = true := by
    rw [List.all_replicate]
    split <;> rfl
  rw [padded, List.all_append, zeros, Bool.and_true]

theorem length_binary (number width : Nat) : (binary number width).length = width := by
  simp [binary]

/-- Only the lowest digits matter. -/
theorem binary_mod (number width : Nat) : binary (number % 2 ^ width) width = binary number width := by
  refine List.map_congr_left fun place member => ?_
  rw [Nat.testBit_mod_two_pow, decide_eq_true (List.mem_range.mp member), Bool.true_and]

/-- Arithmetic on words agrees with arithmetic on numbers below any width that a word has. -/
theorem binary_word {op : UInt64 → UInt64 → UInt64} {opInt : Int → Int → Int}
    (wraps : ∀ a b : Nat, Int.ModEq (2 ^ 64) (op (UInt64.ofNat a) (UInt64.ofNat b)).toNat (opInt a b))
    (small : width ≤ 64) (a b : Nat) :
    binary (op (UInt64.ofNat a) (UInt64.ofNat b)).toNat width =
      binary (opInt a b % 2 ^ width).toNat width := by
  have same : Int.ModEq (2 ^ width) (op (UInt64.ofNat a) (UInt64.ofNat b)).toNat (opInt a b) :=
    (wraps a b).of_dvd (pow_dvd_pow 2 small)
  rw [← same.eq, ← binary_mod]
  congr 1

theorem add_wraps (a b : Nat) :
    Int.ModEq (2 ^ 64) (UInt64.ofNat a + UInt64.ofNat b).toNat (a + b : Int) := by
  simp only [UInt64.toNat_add, UInt64.toNat_ofNat', Int.ModEq]
  omega

theorem sub_wraps (a b : Nat) :
    Int.ModEq (2 ^ 64) (UInt64.ofNat a - UInt64.ofNat b).toNat (a - b : Int) := by
  simp only [UInt64.toNat_sub, UInt64.toNat_ofNat', Int.ModEq]
  omega

end Lists

/-! ## Operations -/

section Operations

variable {a b v value : LogicVector} {bits left right : List Logic} {width : Nat}

/-- A widened operand has its bits, brought to the width of the context. -/
theorem LogicVector.widen_bits (read : v.bits = .ok bits)
    (done : v.widen (some width) = .ok value) : value.bits = .ok (padded width bits) := by
  obtain ⟨complete, rfl⟩ := complete_of_bits read
  rw [widen] at done
  by_cases narrow : v.width < width
  · rw [if_pos narrow, extend_of_complete complete (Nat.le_of_lt narrow)] at done
    cases done
    exact bits_ofBits _
  · have wide : width ≤ v.readable.length := by
      rw [length_readable complete]
      exact Nat.le_of_not_lt narrow
    rw [if_neg narrow] at done
    cases done
    rw [padded_of_le wide]
    exact read

theorem LogicVector.complement_bits (read : v.bits = .ok bits) (done : v.complement = .ok value) :
    value.bits = .ok (bits.map Logic.not) := by
  obtain ⟨complete, rfl⟩ := complete_of_bits read
  rw [complement_of_complete complete] at done
  cases done
  exact bits_ofBits _

theorem LogicVector.append_bits (readHigh : a.bits = .ok left) (readLow : b.bits = .ok right)
    (done : a.append b = .ok value) : value.bits = .ok (right ++ left) := by
  obtain ⟨completeHigh, rfl⟩ := complete_of_bits readHigh
  obtain ⟨completeLow, rfl⟩ := complete_of_bits readLow
  rw [append_of_complete completeHigh completeLow] at done
  cases done
  exact bits_ofBits _

theorem LogicVector.zipWith_bits {op : Logic → Logic → Logic} (readLeft : a.bits = .ok left)
    (readRight : b.bits = .ok right) (done : zipWith op a b = .ok value) :
    value.bits = .ok (List.zipWith op (padded (max left.length right.length) left)
      (padded (max left.length right.length) right)) := by
  rw [← width_of_bits readLeft, ← width_of_bits readRight]
  obtain ⟨completeLeft, rfl⟩ := complete_of_bits readLeft
  obtain ⟨completeRight, rfl⟩ := complete_of_bits readRight
  rw [zipWith_of_complete op completeLeft completeRight] at done
  cases done
  exact bits_ofBits _

/-- The numbers of the operands are added or subtracted as if in `width` bits. -/
theorem LogicVector.arithmetic_bits {op : UInt64 → UInt64 → UInt64} {opInt : Int → Int → Int}
    (wraps : ∀ a b : Nat, Int.ModEq (2 ^ 64) (op (UInt64.ofNat a) (UInt64.ofNat b)).toNat (opInt a b))
    (readLeft : a.bits = .ok left) (readRight : b.bits = .ok right)
    (done : arithmetic op a b = .ok value) :
    value.bits = .ok (wrapped opInt (padded (max left.length right.length) left)
      (padded (max left.length right.length) right)) := by
  obtain ⟨completeLeft, rfl⟩ := complete_of_bits readLeft
  obtain ⟨completeRight, rfl⟩ := complete_of_bits readRight
  rw [arithmetic_of_complete op completeLeft completeRight, width_of_bits readLeft,
    width_of_bits readRight] at done
  have length : max (max a.readable.length b.readable.length) a.readable.length =
      max a.readable.length b.readable.length := by omega
  rw [wrapped, known_padded, known_padded, number_padded, number_padded, length_padded_eq_max, length]
  generalize max a.readable.length b.readable.length = width at done ⊢
  by_cases wide : 64 < width
  · rw [if_pos wide] at done
    cases done
  · rw [if_neg wide] at done
    by_cases known : (a.readable.all Logic.isKnown && b.readable.all Logic.isKnown) = true
    · rw [if_pos known] at done ⊢
      cases done
      rw [ofUInt64, bits_ofBits, binary_word wraps (Nat.le_of_not_lt wide)]
    · rw [if_neg known] at done ⊢
      cases done
      exact bits_ofBits _

/-- An operator works at the larger of the widths of its operands. -/
theorem BinaryOperator.apply_bits {operator : BinaryOperator} (readLeft : a.bits = .ok left)
    (readRight : b.bits = .ok right) (done : operator.apply a b = .ok value) :
    value.bits = .ok (operator.onBits (padded (max left.length right.length) left)
      (padded (max left.length right.length) right)) := by
  cases operator with
  | and | or | xor =>
    exact LogicVector.zipWith_bits readLeft readRight (Attempt.ok_of_ofChecked done)
  | add => exact LogicVector.arithmetic_bits add_wraps readLeft readRight done
  | sub => exact LogicVector.arithmetic_bits sub_wraps readLeft readRight done

end Operations

/-! ## Evaluation -/

namespace Expression

mutual

/-- Without a context an expression has its own bits. -/
theorem bits_of_fold_none (expression : Expression) (complete : expression.Complete)
    {value : LogicVector} (done : expression.fold none = .ok value) :
    value.bits = .ok expression.ownBits := by
  cases expression with
  | literal literal =>
    cases literal with
    | unsized number =>
      cases done
      exact LogicVector.bits_ofBits _
    | sized bits =>
      cases done
      exact LogicVector.bits_of_complete complete
    | fill bit => cases done
  | not operand =>
    obtain ⟨inner, folded, done⟩ := ok_of_bind done
    exact LogicVector.complement_bits (bits_of_fold_none operand complete folded)
      (Attempt.ok_of_ofChecked done)
  | binary operator left right =>
    -- Widening does nothing without a context.
    obtain ⟨leftValue, foldedLeft, done⟩ := ok_of_bind done
    obtain ⟨_, widened, done⟩ := ok_of_bind done
    cases widened
    obtain ⟨rightValue, foldedRight, done⟩ := ok_of_bind done
    obtain ⟨_, widened, done⟩ := ok_of_bind done
    cases widened
    exact BinaryOperator.apply_bits (bits_of_fold_none left complete.1 foldedLeft)
      (bits_of_fold_none right complete.2 foldedRight) done
  | concat parts =>
    cases parts with
    | nil => cases done
    | cons first rest =>
      obtain ⟨upper, folded, done⟩ := ok_of_bind done
      exact bits_of_foldBelow rest complete.2 (bits_of_fold_none first complete.1 folded) done

/-- Parts are put below what is there already. -/
theorem bits_of_foldBelow (parts : List Expression) (complete : AllComplete parts)
    {upper value : LogicVector} {bits : List Logic} (above : upper.bits = .ok bits)
    (done : foldBelow upper parts = .ok value) : value.bits = .ok (joinedBits parts ++ bits) := by
  cases parts with
  | nil =>
    cases done
    exact above
  | cons part rest =>
    obtain ⟨lower, folded, done⟩ := ok_of_bind done
    obtain ⟨joined, appended, done⟩ := ok_of_bind done
    have both := LogicVector.append_bits above (bits_of_fold_none part complete.1 folded)
      (Attempt.ok_of_ofChecked appended)
    rw [joinedBits, List.append_assoc]
    exact bits_of_foldBelow rest complete.2 both done

end

variable {width : Nat}

end Expression

namespace Sample

end Sample

end HdlPorts
