import HdlPorts.Proofs.Numbers

/-! Expressions of known bits are integer arithmetic.

If all bits of the literals are known, the value of an expression is known, and the number it stands
for can be computed on numbers alone. An operator works modulo two to the power of its width, which
is the largest of the widths of its operands and of the context. Parts of a concatenation have no
context and are shifted past the parts below them. Nothing in this depends on how many bits a word
has, except that sums and differences of more than 64 bits have no value.
-/

set_option autoImplicit false

namespace HdlPorts

/-! ## The reference -/

namespace Literal

/-- All bits of the literal are there and are known. -/
def Known : Literal → Prop
  | unsized _ => True
  | sized bits => bits.Complete ∧ bits.readable.all Logic.isKnown = true
  | fill bit => bit.isKnown = true

/-- The width of a literal in a context. -/
def widthIn (context : Option Nat) (literal : Literal) : Nat :=
  literal.width?.getD (context.getD 0)

/-- The number of a literal in a context. -/
def numberIn (context : Option Nat) : Literal → Nat
  | unsized value => value.toNat
  | sized bits => LogicVector.number bits.readable
  | fill .one => 2 ^ context.getD 0 - 1
  | fill _ => 0

end Literal

/-- The operator on numbers of at most `width` bits. -/
def BinaryOperator.onNumbers (width left right : Nat) : BinaryOperator → Nat
  | and => left &&& right
  | or => left ||| right
  | xor => left ^^^ right
  | add => (left + right) % 2 ^ width
  | sub => ((left - right : Int) % 2 ^ width).toNat

namespace Expression

mutual

/-- All bits of the literals in the expression are there and are known. -/
def Known : Expression → Prop
  | literal value => value.Known
  | not operand => operand.Known
  | binary _ left right => left.Known ∧ right.Known
  | concat parts => AllKnown parts

def AllKnown : List Expression → Prop
  | [] => True
  | part :: rest => part.Known ∧ AllKnown rest

end

mutual

/-- The width of an expression in a context. -/
def widthIn (context : Option Nat) : Expression → Nat
  | literal value => value.widthIn context
  | not operand => max (context.getD 0) (operand.widthIn context)
  | binary _ left right =>
    max (context.getD 0) (max (left.widthIn context) (right.widthIn context))
  | concat parts => totalWidth parts

/-- The width of parts side by side. -/
def totalWidth : List Expression → Nat
  | [] => 0
  | part :: rest => part.widthIn none + totalWidth rest

end

mutual

/-- The number of an expression in a context. -/
def numberIn (context : Option Nat) : Expression → Nat
  | literal value => value.numberIn context
  | not operand => 2 ^ widthIn context (not operand) - 1 - operand.numberIn context
  | binary operator left right =>
    operator.onNumbers (widthIn context (binary operator left right)) (left.numberIn context)
      (right.numberIn context)
  | concat parts => joinedNumber parts

/-- The numbers of parts side by side, each shifted past the parts after it. -/
def joinedNumber : List Expression → Nat
  | [] => 0
  | part :: rest => part.numberIn none <<< totalWidth rest + joinedNumber rest

end

end Expression

/-! ## Operations -/

/-- The bits are known, and they are the digits of the number at the width. -/
structure Denotes (bits : List Logic) (width number : Nat) : Prop where
  known : bits.all Logic.isKnown = true
  length : bits.length = width
  number : LogicVector.number bits = number

namespace Denotes

open LogicVector (padded binary wrapped)

variable {bits left right : List Logic} {width leftWidth rightWidth target value a b : Nat}

theorem padded (denotes : Denotes bits width value) (target : Nat) :
    Denotes (padded target bits) (max target width) value where
  known := by rw [known_padded, denotes.known]
  length := by rw [length_padded_eq_max, denotes.length]
  number := by rw [number_padded, denotes.number]

theorem not (denotes : Denotes bits width value) :
    Denotes (bits.map Logic.not) width (2 ^ width - 1 - value) where
  known := by
    have each := denotes.known
    rw [List.all_map]
    rw [List.all_eq_true] at each ⊢
    intro bit member
    have own := each bit member
    cases bit with
    | zero | one => rfl
    | x | z => cases own
  length := by rw [List.length_map, denotes.length]
  number := by rw [LogicVector.number_map_not denotes.known, denotes.length, denotes.number]

theorem append (lower : Denotes right rightWidth b) (upper : Denotes left leftWidth a) :
    Denotes (right ++ left) (leftWidth + rightWidth) (a <<< rightWidth + b) where
  known := by rw [List.all_append, lower.known, upper.known]; rfl
  length := by rw [List.length_append, lower.length, upper.length, Nat.add_comm]
  number := by rw [LogicVector.number_append, lower.length, lower.number, upper.number]

theorem binary (value width : Nat) : Denotes (binary value width) width (value % 2 ^ width) :=
  ⟨LogicVector.known_binary value width, length_binary value width,
    LogicVector.number_binary value width⟩

theorem zipWith {op : Logic → Logic → Logic} {opNat : Nat → Nat → Nat}
    {opBool : Bool → Bool → Bool} (first : Denotes left width a) (second : Denotes right width b)
    (agree : ∀ a b, op (.ofBool a) (.ofBool b) = .ofBool (opBool a b))
    (digit : ∀ a b index,
      (opNat a b).testBit index = opBool (a.testBit index) (b.testBit index))
    (above : opBool false false = false) :
    Denotes (List.zipWith op left right) width (opNat a b) := by
  obtain ⟨known, same⟩ := LogicVector.number_zipWith agree digit above
    (first.length.trans second.length.symm) first.known second.known
  refine ⟨known, ?_, ?_⟩
  · simp [first.length, second.length]
  · rw [same, first.number, second.number]

theorem wrapped {op : Int → Int → Int} (first : Denotes left width a)
    (second : Denotes right width b) :
    Denotes (wrapped op left right) width (op a b % 2 ^ width).toNat := by
  have positive : (0 : Int) < 2 ^ width := Int.pow_pos (by decide)
  have bound := Int.emod_lt_of_pos (op a b) positive
  have small : (op a b % 2 ^ width).toNat < 2 ^ width := by
    rw [Int.toNat_lt (Int.emod_nonneg _ positive.ne')]
    exact_mod_cast bound
  have digits := binary (op a b % 2 ^ width).toNat width
  rw [Nat.mod_eq_of_lt small] at digits
  rw [LogicVector.wrapped, first.known, second.known, first.number, second.number, first.length]
  exact digits

/-- An operator on bits of one width is the operator on their numbers. -/
theorem onBits (operator : BinaryOperator) (first : Denotes left width a)
    (second : Denotes right width b) :
    Denotes (operator.onBits left right) width (operator.onNumbers width a b) := by
  cases operator with
  | and => exact first.zipWith second (by decide) Nat.testBit_and rfl
  | or => exact first.zipWith second (by decide) Nat.testBit_or rfl
  | xor => exact first.zipWith second (by decide) Nat.testBit_xor rfl
  | add =>
    have same : ((a + b : Int) % 2 ^ width).toNat = (a + b) % 2 ^ width := by
      rw [show (a + b : Int) % 2 ^ width = ((a + b) % 2 ^ width : Nat) by push_cast; rfl,
        Int.toNat_natCast]
    rw [BinaryOperator.onNumbers, ← same]
    exact first.wrapped second
  | sub => exact first.wrapped second

/-- An operator first brings its operands to the larger of their widths. -/
theorem operated (operator : BinaryOperator) (first : Denotes left leftWidth a)
    (second : Denotes right rightWidth b) :
    Denotes
      (operator.onBits (LogicVector.padded (max left.length right.length) left)
        (LogicVector.padded (max left.length right.length) right))
      (max leftWidth rightWidth) (operator.onNumbers (max leftWidth rightWidth) a b) := by
  have left := first.padded (max leftWidth rightWidth)
  have right := second.padded (max leftWidth rightWidth)
  rw [Nat.max_eq_left (Nat.le_max_left _ _)] at left
  rw [Nat.max_eq_left (Nat.le_max_right _ _)] at right
  rw [first.length, second.length]
  exact left.onBits operator right

end Denotes

/-! ## Evaluation -/

namespace LogicVector

variable {v value : LogicVector} {bits : List Logic} {width number : Nat}

/-- Widening to the context changes the width and not the number. -/
theorem widen_denotes (read : v.bits = .ok bits) (denotes : Denotes bits width number)
    {context : Option Nat} (done : v.widen context = .ok value) :
    ∃ wider, value.bits = .ok wider ∧ Denotes wider (max (context.getD 0) width) number := by
  cases context with
  | none =>
    cases done
    exact ⟨bits, read, by simpa using denotes⟩
  | some target => exact ⟨_, widen_bits read done, denotes.padded target⟩

end LogicVector

namespace Expression

theorem denotes_literal {literal : Literal} (known : literal.Known) {context : Option Nat}
    {value : LogicVector} (done : literal.value context = .ok value) :
    ∃ bits, value.bits = .ok bits ∧
      Denotes bits (literal.widthIn context) (literal.numberIn context) := by
  cases literal with
  | unsized number =>
    cases done
    have digits := Denotes.binary number.toNat (minimalWidth number.toNat)
    rw [Nat.mod_eq_of_lt (lt_two_pow_minimalWidth _)] at digits
    exact ⟨_, LogicVector.bits_ofBits _, digits⟩
  | sized bits =>
    cases done
    obtain ⟨complete, each⟩ := known
    exact ⟨_, LogicVector.bits_of_complete complete,
      ⟨each, LogicVector.length_readable complete, rfl⟩⟩
  | fill bit =>
    cases context with
    | none => cases done
    | some width =>
      cases done
      refine ⟨_, LogicVector.bits_ofBits _, ?_, List.length_replicate, ?_⟩
      · exact List.all_eq_true.mpr fun other member => List.eq_of_mem_replicate member ▸ known
      · cases bit with
        | zero => exact LogicVector.number_replicate_zero width
        | one => exact LogicVector.number_replicate_one width
        | x | z => cases known

mutual

/-- What an expression of known bits is evaluated to has the reference's width and number. -/
theorem denotes_of_fold (context : Option Nat) (expression : Expression)
    (known : expression.Known) {value : LogicVector}
    (done : expression.fold context = .ok value) :
    ∃ bits, value.bits = .ok bits ∧
      Denotes bits (expression.widthIn context) (expression.numberIn context) := by
  cases expression with
  | literal literal => exact denotes_literal known done
  | not operand =>
    obtain ⟨inner, folded, done⟩ := ok_of_bind done
    obtain ⟨wider, widened, done⟩ := ok_of_bind done
    obtain ⟨bits, read, denotes⟩ := denotes_of_fold context operand known folded
    obtain ⟨bits, read, denotes⟩ :=
      LogicVector.widen_denotes read denotes (Attempt.ok_of_ofChecked widened)
    exact ⟨_, LogicVector.complement_bits read (Attempt.ok_of_ofChecked done), denotes.not⟩
  | binary operator left right =>
    obtain ⟨leftValue, foldedLeft, done⟩ := ok_of_bind done
    obtain ⟨leftWider, widenedLeft, done⟩ := ok_of_bind done
    obtain ⟨rightValue, foldedRight, done⟩ := ok_of_bind done
    obtain ⟨rightWider, widenedRight, done⟩ := ok_of_bind done
    obtain ⟨leftBits, readLeft, first⟩ := denotes_of_fold context left known.1 foldedLeft
    obtain ⟨rightBits, readRight, second⟩ := denotes_of_fold context right known.2 foldedRight
    obtain ⟨leftBits, readLeft, first⟩ :=
      LogicVector.widen_denotes readLeft first (Attempt.ok_of_ofChecked widenedLeft)
    obtain ⟨rightBits, readRight, second⟩ :=
      LogicVector.widen_denotes readRight second (Attempt.ok_of_ofChecked widenedRight)
    refine ⟨_, BinaryOperator.apply_bits readLeft readRight done, ?_⟩
    have width : widthIn context (.binary operator left right) =
        max (max (context.getD 0) (left.widthIn context))
          (max (context.getD 0) (right.widthIn context)) := by
      rw [widthIn]
      omega
    rw [numberIn, width]
    exact first.operated operator second
  | concat parts =>
    cases parts with
    | nil => cases done
    | cons first rest =>
      obtain ⟨upper, folded, done⟩ := ok_of_bind done
      obtain ⟨bits, read, denotes⟩ := denotes_of_fold none first known.1 folded
      exact denotes_of_foldBelow rest known.2 read denotes done

/-- Parts are put below what is there already. -/
theorem denotes_of_foldBelow (parts : List Expression) (known : AllKnown parts)
    {upper value : LogicVector} {bits : List Logic} {width number : Nat}
    (read : upper.bits = .ok bits) (above : Denotes bits width number)
    (done : foldBelow upper parts = .ok value) :
    ∃ bits, value.bits = .ok bits ∧
      Denotes bits (width + totalWidth parts) (number <<< totalWidth parts + joinedNumber parts) := by
  cases parts with
  | nil =>
    cases done
    exact ⟨bits, read, above⟩
  | cons part rest =>
    obtain ⟨lower, folded, done⟩ := ok_of_bind done
    obtain ⟨joined, appended, done⟩ := ok_of_bind done
    obtain ⟨lowerBits, readLower, below⟩ := denotes_of_fold none part known.1 folded
    have readBoth := LogicVector.append_bits read readLower (Attempt.ok_of_ofChecked appended)
    have shifted : number <<< totalWidth (part :: rest) + joinedNumber (part :: rest) =
        (number <<< part.widthIn none + part.numberIn none) <<< totalWidth rest +
          joinedNumber rest := by
      simp only [totalWidth, joinedNumber, Nat.shiftLeft_eq, pow_add]
      ring
    rw [shifted, totalWidth, ← Nat.add_assoc]
    exact denotes_of_foldBelow rest known.2 readBoth (below.append above) done

end

/-- If the literals have known bits only, so has the value, and its number is what integer arithmetic
gives at the widths of the operators. -/
theorem number_of_fold {expression : Expression} (known : expression.Known)
    (context : Option Nat) {value : LogicVector} (done : expression.fold context = .ok value) :
    value.hasUnknown = .ok false ∧ value.width = expression.widthIn context ∧
      ∃ bits, value.bits = .ok bits ∧
        LogicVector.number bits = expression.numberIn context := by
  obtain ⟨bits, read, denotes⟩ := denotes_of_fold context expression known done
  refine ⟨?_, ?_, bits, read, denotes.number⟩
  · obtain ⟨complete, rfl⟩ := LogicVector.complete_of_bits read
    have each : ¬ value.readable.any (fun bit => !bit.isKnown) = true := by
      simpa using denotes.known
    rw [LogicVector.hasUnknown, if_neg each, if_pos complete]
  · rw [LogicVector.width_of_bits read, denotes.length]

end Expression

/-! ## A difference above thirty-three bits -/

namespace Sample

/-- The difference `3 - 5` on top of thirty-three ones, complemented at the width of the context. -/
def upperDifference : Expression :=
  .binary .xor
    (.concat [
      .binary .sub (.literal (.unsized 3)) (.literal (.unsized 5)),
      .literal (.sized (.filled 33 .one))])
    (.literal (.fill .one))

theorem known_upperDifference : upperDifference.Known :=
  have ones : Literal.Known (.sized (.filled 33 .one)) :=
    ⟨LogicVector.complete_filled 33 .one, by decide⟩
  ⟨⟨⟨trivial, trivial⟩, ones, trivial⟩, rfl⟩

end Sample

/-- The difference wraps at three bits, the parts are joined beyond the first word, and the
complement is taken at seventy bits. -/
theorem Expression.number_of_fold_upperDifference :
    ∃ value bits, Sample.upperDifference.fold (some 70) = .ok value ∧ value.width = 70 ∧
      value.bits = .ok bits ∧
      LogicVector.number bits = (6 * 2 ^ 33 + (2 ^ 33 - 1)) ^^^ (2 ^ 70 - 1) := by
  have folded : (Sample.upperDifference.fold (some 70)).isOk = true := by decide +kernel
  cases done : Sample.upperDifference.fold (some 70) with
  | error stop =>
    rw [done] at folded
    cases folded
  | ok value =>
    obtain ⟨_, width, bits, read, number⟩ :=
      Expression.number_of_fold Sample.known_upperDifference (some 70) done
    exact ⟨value, bits, rfl, width, read, number.trans (by decide +kernel)⟩

end HdlPorts
