import HdlPorts.Proofs.Evaluation
import Mathlib.Data.List.Forall2

/-! Evaluation is sound for unknown bits.

A bit that is `x` or `z` stands for a bit that is not known. If some of them become known, the value
of an expression may become known in more places, but where it was known it stays as it was, and
neither its width nor the reason why it has none depends on the bits.
-/

set_option autoImplicit false

namespace HdlPorts

/-! ## Bits -/

namespace Logic

/-- The other bit is this one, if this one is known. -/
def Allows (bit other : Logic) : Prop := bit.isKnown = true → other = bit

instance (bit other : Logic) : Decidable (bit.Allows other) :=
  inferInstanceAs (Decidable (_ → _))

/-- The results of an operation are known wherever they were before its operands became known. -/
def Sound (op : Logic → Logic → Logic) : Prop :=
  ∀ {a a' b b' : Logic}, a.Allows a' → b.Allows b' → (op a b).Allows (op a' b')

variable {a b : Logic}

theorem Allows.refl (a : Logic) : a.Allows a := fun _ => rfl

theorem allows_of_unknown (unknown : a.isKnown = false) (b : Logic) : a.Allows b := by
  intro known
  rw [unknown] at known
  cases known

theorem Allows.not (allows : a.Allows b) : a.not.Allows b.not := by
  cases a with
  | zero => rw [allows rfl]; exact .refl _
  | one => rw [allows rfl]; exact .refl _
  | x => exact allows_of_unknown rfl _
  | z => exact allows_of_unknown rfl _

/-- An operand that is `0` decides a conjunction; otherwise both have to be known. -/
theorem sound_and : Sound Logic.and := by
  intro a a' b b' first second known
  cases a <;> cases b <;> simp_all [Allows, Logic.and, isKnown] <;> cases a' <;> rfl

theorem sound_or : Sound Logic.or := by
  intro a a' b b' first second known
  cases a <;> cases b <;> simp_all [Allows, Logic.or, isKnown] <;> cases a' <;> rfl

theorem sound_xor : Sound Logic.xor := by
  intro a a' b b' first second known
  cases a <;> cases b <;> simp_all [Allows, Logic.xor, isKnown]

end Logic

section Lists

variable {bits bits' others others' : List Logic}

theorem allows_zipWith {op : Logic → Logic → Logic} (sound : Logic.Sound op)
    (left : List.Forall₂ Logic.Allows bits bits') (right : List.Forall₂ Logic.Allows others others') :
    List.Forall₂ Logic.Allows (List.zipWith op bits others) (List.zipWith op bits' others') := by
  induction left generalizing others others' with
  | nil => exact .nil
  | cons first _ ih =>
    cases right with
    | nil => exact .nil
    | cons second rest => exact .cons (sound first second) (ih rest)

theorem allows_padded (width : Nat) (allows : List.Forall₂ Logic.Allows bits bits') :
    List.Forall₂ Logic.Allows (LogicVector.padded width bits) (LogicVector.padded width bits') := by
  unfold LogicVector.padded
  rw [allows.length_eq]
  exact List.rel_append allows (List.forall₂_same.mpr fun bit _ => .refl bit)

theorem allows_replicate {bit bit' : Logic} (allows : bit.Allows bit') (count : Nat) :
    List.Forall₂ Logic.Allows (List.replicate count bit) (List.replicate count bit') := by
  induction count with
  | zero => exact .nil
  | succ count ih => exact .cons allows ih

/-- Nothing is lost where nothing was known. -/
theorem allows_replicate_x (bits : List Logic) :
    List.Forall₂ Logic.Allows (List.replicate bits.length .x) bits := by
  induction bits with
  | nil => exact .nil
  | cons bit rest ih => exact .cons (Logic.allows_of_unknown rfl bit) ih

theorem eq_of_allows (allows : List.Forall₂ Logic.Allows bits bits')
    (known : bits.all Logic.isKnown = true) : bits' = bits := by
  induction allows with
  | nil => rfl
  | cons first _ ih =>
    simp only [List.all_cons, Bool.and_eq_true] at known
    rw [first known.1, ih known.2]

end Lists

/-! ## Vectors -/

namespace LogicVector

variable {a a' b b' v v' : LogicVector}

/-- Both vectors have words for all their bits, as many in both, and the bits of the second are
those of the first where these are known. -/
def Allows (v v' : LogicVector) : Prop :=
  ∃ bits bits', v.bits = .ok bits ∧ v'.bits = .ok bits' ∧ List.Forall₂ Logic.Allows bits bits'

theorem allows_ofBits {bits bits' : List Logic} (allows : List.Forall₂ Logic.Allows bits bits') :
    (ofBits bits).Allows (ofBits bits') :=
  ⟨bits, bits', bits_ofBits bits, bits_ofBits bits', allows⟩

theorem Allows.complete (allows : v.Allows v') : v.Complete ∧ v'.Complete := by
  obtain ⟨bits, bits', read, read', _⟩ := allows
  exact ⟨(complete_of_bits read).1, (complete_of_bits read').1⟩

theorem Allows.readable (allows : v.Allows v') :
    List.Forall₂ Logic.Allows v.readable v'.readable := by
  obtain ⟨bits, bits', read, read', all⟩ := allows
  rwa [(complete_of_bits read).2, (complete_of_bits read').2] at all

theorem Allows.width (allows : v.Allows v') : v'.width = v.width := by
  rw [← length_readable allows.complete.1, ← length_readable allows.complete.2,
    allows.readable.length_eq]

/-- A bit that is known is read from the other vector too. -/
theorem Allows.get (allows : v.Allows v') {index : Nat} (bound : index < v.width) :
    ∃ bit bit', v.get index = .ok bit ∧ v'.get index = .ok bit' ∧ bit.Allows bit' := by
  obtain ⟨bits, bits', read, read', all⟩ := allows
  rw [width_of_bits read] at bound
  have bound' : index < bits'.length := all.length_eq ▸ bound
  exact ⟨bits[index], bits'[index], get_of_bits read (List.getElem?_eq_getElem bound),
    get_of_bits read' (List.getElem?_eq_getElem bound'), all.get bound bound'⟩

theorem Allows.widen (allows : v.Allows v') (context : Option Nat) :
    ∃ wider wider', v.widen context = .ok wider ∧ v'.widen context = .ok wider' ∧
      wider.Allows wider' := by
  obtain ⟨complete, complete'⟩ := allows.complete
  cases context with
  | none => exact ⟨v, v', rfl, rfl, allows⟩
  | some width =>
    simp only [LogicVector.widen, allows.width]
    by_cases narrow : v.width < width
    · rw [if_pos narrow, if_pos narrow]
      have enough' : v'.width ≤ width := allows.width ▸ Nat.le_of_lt narrow
      exact ⟨_, _, extend_of_complete complete (Nat.le_of_lt narrow),
        extend_of_complete complete' enough', allows_ofBits (allows_padded width allows.readable)⟩
    · rw [if_neg narrow, if_neg narrow]
      exact ⟨v, v', rfl, rfl, allows⟩

theorem Allows.complement (allows : v.Allows v') :
    ∃ value value', v.complement = .ok value ∧ v'.complement = .ok value' ∧
      value.Allows value' := by
  obtain ⟨complete, complete'⟩ := allows.complete
  refine ⟨_, _, complement_of_complete complete, complement_of_complete complete', ?_⟩
  refine allows_ofBits ?_
  rw [List.forall₂_map_left_iff, List.forall₂_map_right_iff]
  exact allows.readable.imp fun _ _ bit => bit.not

theorem Allows.append (high : a.Allows a') (low : b.Allows b') :
    ∃ value value', a.append b = .ok value ∧ a'.append b' = .ok value' ∧ value.Allows value' :=
  ⟨_, _, append_of_complete high.complete.1 low.complete.1,
    append_of_complete high.complete.2 low.complete.2,
    allows_ofBits (List.rel_append low.readable high.readable)⟩

theorem Allows.zipWith {op : Logic → Logic → Logic} (sound : Logic.Sound op) (left : a.Allows a')
    (right : b.Allows b') :
    ∃ value value', LogicVector.zipWith op a b = .ok value ∧
      LogicVector.zipWith op a' b' = .ok value' ∧ value.Allows value' := by
  refine ⟨_, _, zipWith_of_complete op left.complete.1 right.complete.1,
    zipWith_of_complete op left.complete.2 right.complete.2, ?_⟩
  rw [left.width, right.width]
  exact allows_ofBits (allows_zipWith sound (allows_padded _ left.readable)
    (allows_padded _ right.readable))

/-- A result that is all `x` allows every other result of its width. -/
theorem allows_filled_x {width : Nat} (complete : v.Complete) (same : v.width = width) :
    (filled width .x).Allows v := by
  refine ⟨_, v.readable, bits_ofBits _, bits_of_complete complete, ?_⟩
  rw [← same, ← length_readable complete]
  exact allows_replicate_x _

end LogicVector

/-- Two reasons of one kind. A fill literal is named by its bit, which may have become known. -/
inductive FoldError.Alike : FoldError → FoldError → Prop where
  | emptyConcat : Alike .emptyConcat .emptyConcat
  | unsizedFill {bit bit' : Logic} : bit.Allows bit' → Alike (.unsizedFill bit) (.unsizedFill bit')
  | arithmeticTooWide {width : Nat} : Alike (.arithmeticTooWide width) (.arithmeticTooWide width)

/-- Related values, or reasons of one kind. -/
abbrev Attempt.Allows : Attempt FoldError LogicVector → Attempt FoldError LogicVector → Prop :=
  Attempt.Related LogicVector.Allows FoldError.Alike

namespace LogicVector

variable {a a' b b' : LogicVector}

/-- Numbers are known as a whole: if an operand is not, the result says nothing. -/
theorem Allows.arithmetic (op : UInt64 → UInt64 → UInt64) (left : a.Allows a')
    (right : b.Allows b') : (arithmetic op a b).Allows (arithmetic op a' b') := by
  rw [arithmetic_of_complete op left.complete.1 right.complete.1,
    arithmetic_of_complete op left.complete.2 right.complete.2, left.width, right.width]
  by_cases wide : 64 < max a.width b.width
  · rw [if_pos wide, if_pos wide]
    exact .refused .arithmeticTooWide
  · rw [if_neg wide, if_neg wide]
    by_cases known : (a.readable.all Logic.isKnown && b.readable.all Logic.isKnown) = true
    · have ⟨knownLeft, knownRight⟩ := Bool.and_eq_true_iff.mp known
      rw [eq_of_allows left.readable knownLeft, eq_of_allows right.readable knownRight, if_pos known]
      exact .ok (allows_ofBits (List.forall₂_same.mpr fun bit _ => .refl bit))
    · rw [if_neg known]
      split
      · exact .ok (allows_filled_x (complete_ofUInt64 _ _) (by simp [ofUInt64, binary]))
      · exact .ok (allows_filled_x (complete_filled _ _) (width_filled _ _))

end LogicVector

/-! ## Expressions -/

/-- The other literal is this one with some of its bits, if they were not known, replaced. -/
inductive Literal.Allows : Literal → Literal → Prop where
  | unsized {number : UInt64} : Allows (.unsized number) (.unsized number)
  | sized {bits bits' : LogicVector} : bits.Allows bits' → Allows (.sized bits) (.sized bits')
  | fill {bit bit' : Logic} : bit.Allows bit' → Allows (.fill bit) (.fill bit')

namespace Expression

mutual

/-- The other expression is this one with some bits of its literals, if they were not known,
replaced, each in its own way. -/
inductive Allows : Expression → Expression → Prop where
  | literal {value value' : Literal} : value.Allows value' → Allows (.literal value) (.literal value')
  | not {operand operand' : Expression} : Allows operand operand' →
      Allows (.not operand) (.not operand')
  | binary {operator : BinaryOperator} {left left' right right' : Expression} :
      Allows left left' → Allows right right' →
      Allows (.binary operator left right) (.binary operator left' right')
  | concat {parts parts' : List Expression} : AllAllow parts parts' →
      Allows (.concat parts) (.concat parts')

inductive AllAllow : List Expression → List Expression → Prop where
  | nil : AllAllow [] []
  | cons {part part' : Expression} {rest rest' : List Expression} : Allows part part' →
      AllAllow rest rest' → AllAllow (part :: rest) (part' :: rest')

end

end Expression

theorem Literal.value_allows {literal other : Literal} (allows : literal.Allows other)
    (context : Option Nat) : (literal.value context).Allows (other.value context) := by
  cases allows with
  | unsized => exact .ok (LogicVector.allows_ofBits (List.forall₂_same.mpr fun bit _ => .refl bit))
  | sized bits => exact .ok bits
  | fill bit =>
    cases context with
    | none => exact .refused (.unsizedFill bit)
    | some width =>
      exact .ok (LogicVector.allows_ofBits (allows_replicate bit width))

theorem BinaryOperator.apply_allows (operator : BinaryOperator) {a a' b b' : LogicVector}
    (left : a.Allows a') (right : b.Allows b') :
    (operator.apply a b).Allows (operator.apply a' b') := by
  have bitwise {op : Logic → Logic → Logic} (sound : Logic.Sound op) :
      Attempt.Allows (.ofChecked (LogicVector.zipWith op a b))
        (.ofChecked (LogicVector.zipWith op a' b')) := by
    obtain ⟨value, value', done, done', allows⟩ := left.zipWith sound right
    exact .ofChecked done done' allows
  cases operator with
  | and => exact bitwise Logic.sound_and
  | or => exact bitwise Logic.sound_or
  | xor => exact bitwise Logic.sound_xor
  | add => exact left.arithmetic _ right
  | sub => exact left.arithmetic _ right

namespace Expression

theorem widen_allows {v v' : LogicVector} (allows : v.Allows v') (context : Option Nat) :
    Attempt.Allows (.ofChecked (v.widen context)) (.ofChecked (v'.widen context)) := by
  obtain ⟨wider, wider', done, done', allows⟩ := allows.widen context
  exact .ofChecked done done' allows

mutual

theorem fold_allows (context : Option Nat) (expression other : Expression)
    (allows : expression.Allows other) : (expression.fold context).Allows (other.fold context) := by
  cases expression with
  | literal value =>
    cases allows with
    | literal same => exact Literal.value_allows same context
  | not operand =>
    cases allows with
    | @not _ operand' same =>
      refine (fold_allows context operand operand' same).bind fun value value' allows => ?_
      refine (widen_allows allows context).bind fun wider wider' allows => ?_
      obtain ⟨_, _, done, done', allows⟩ := allows.complement
      exact .ofChecked done done' allows
  | binary operator left right =>
    cases allows with
    | @binary _ _ left' _ right' sameLeft sameRight =>
      refine (fold_allows context left left' sameLeft).bind fun value value' first => ?_
      refine (widen_allows first context).bind fun wider wider' first => ?_
      refine (fold_allows context right right' sameRight).bind fun value value' second => ?_
      refine (widen_allows second context).bind fun wider wider' second => ?_
      exact operator.apply_allows first second
  | concat parts =>
    cases allows with
    | concat same =>
      cases same with
      | nil => exact .refused .emptyConcat
      | @cons first first' rest rest' sameFirst sameRest =>
        refine (fold_allows none first first' sameFirst).bind fun value value' upper => ?_
        exact foldBelow_allows rest rest' sameRest upper

theorem foldBelow_allows {upper upper' : LogicVector} (parts others : List Expression)
    (allows : AllAllow parts others) (above : upper.Allows upper') :
    (foldBelow upper parts).Allows (foldBelow upper' others) := by
  cases parts with
  | nil =>
    cases allows with
    | nil => exact .ok above
  | cons part rest =>
    cases allows with
    | @cons _ part' _ rest' samePart sameRest =>
      refine (fold_allows none part part' samePart).bind fun value value' below => ?_
      obtain ⟨_, _, done, done', above⟩ := above.append below
      refine (Attempt.Related.ofChecked done done' above).bind fun upper upper' above => ?_
      exact foldBelow_allows rest rest' sameRest above

end

mutual

theorem complete_of_allows (expression other : Expression) (allows : expression.Allows other) :
    expression.Complete := by
  cases expression with
  | literal value =>
    cases allows with
    | literal same =>
      cases same with
      | unsized => trivial
      | sized bits => exact bits.complete.1
      | fill bit => trivial
  | not operand =>
    cases allows with
    | @not _ operand' same => exact complete_of_allows operand operand' same
  | binary operator left right =>
    cases allows with
    | @binary _ _ left' _ right' sameLeft sameRight =>
      exact ⟨complete_of_allows left left' sameLeft, complete_of_allows right right' sameRight⟩
  | concat parts =>
    cases allows with
    | @concat _ parts' same => exact allComplete_of_allows parts parts' same

theorem allComplete_of_allows (parts others : List Expression) (allows : AllAllow parts others) :
    AllComplete parts := by
  cases parts with
  | nil => trivial
  | cons part rest =>
    cases allows with
    | @cons _ part' _ rest' samePart sameRest =>
      exact ⟨complete_of_allows part part' samePart, allComplete_of_allows rest rest' sameRest⟩

end

/-- If bits of literals that were not known become known, an expression keeps the width of its
value and every bit that was known, or it still has no value for a reason of the same kind. -/
theorem known_bits_persist {expression other : Expression} (allows : expression.Allows other)
    (context : Option Nat) :
    (∃ value value', expression.fold context = .ok value ∧ other.fold context = .ok value' ∧
        value'.width = value.width ∧
        ∀ index < value.width, ∃ bit bit', value.get index = .ok bit ∧
          value'.get index = .ok bit' ∧ (bit.isKnown = true → bit' = bit)) ∨
      ∃ error error', expression.fold context = .error (.refused error) ∧
        other.fold context = .error (.refused error') ∧ error.Alike error' := by
  have safe := fold_safe context expression (complete_of_allows expression other allows)
  have both := fold_allows context expression other allows
  generalize expression.fold context = first at both safe ⊢
  generalize other.fold context = second at both ⊢
  cases both with
  | ok same => exact .inl ⟨_, _, rfl, rfl, same.width, fun _ bound => same.get bound⟩
  | refused alike => exact .inr ⟨_, _, rfl, rfl, alike⟩
  | broken => exact safe.elim

end Expression

/-! ## A conjunction of which one bit is known -/

namespace Sample

/-- The low bits `10x` of a literal, masked by an unknown fill. -/
def masked : Expression :=
  .binary .and (.literal (.sized (.ofBits [.x, .zero, .one]))) (.literal (.fill .z))

/-- The same with every unknown bit set. -/
def unmasked : Expression :=
  .binary .and (.literal (.sized (.ofBits [.one, .zero, .one]))) (.literal (.fill .one))

theorem masked_allows : masked.Allows unmasked :=
  .binary (.literal (.sized (LogicVector.allows_ofBits
      (.cons (by decide) (.cons (by decide) (.cons (by decide) .nil))))))
    (.literal (.fill (by decide)))

end Sample

/-- The zero in the middle is known before and after, and the width stays the same. -/
theorem Expression.known_bits_persist_masked :
    ∃ value value', Sample.masked.fold (some 3) = .ok value ∧
      Sample.unmasked.fold (some 3) = .ok value' ∧ value'.width = value.width ∧
      value.get 1 = .ok .zero ∧ value'.get 1 = .ok .zero := by
  have folded : Sample.masked.fold (some 3) = .ok (.ofBits [.x, .zero, .x]) := by decide
  rcases Expression.known_bits_persist Sample.masked_allows (some 3) with
    ⟨value, value', done, done', width, known⟩ | ⟨error, _, refused, _⟩
  · cases done.symm.trans folded
    obtain ⟨bit, bit', read, read', persists⟩ := known 1 (by decide)
    have zero : (LogicVector.ofBits [.x, .zero, .x]).get 1 = .ok .zero := by decide
    cases read.symm.trans zero
    rw [persists rfl] at read'
    exact ⟨_, value', folded, done', width, read, read'⟩
  · cases refused.symm.trans folded

end HdlPorts
