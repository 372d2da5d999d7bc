import HdlPorts.Elaboration.InitialValue
import HdlPorts.Proofs.Attempts
import HdlPorts.Proofs.Vectors

/-! Evaluation meets no fault if every literal has its words.

An initializer is then evaluated to a vector or turned down for a reason that is reported. What
drives an output has exactly the output's width, whatever the literals are.
-/

set_option autoImplicit false

namespace HdlPorts

/-- A sized literal has a word for each of its bits. -/
def Literal.Complete : Literal → Prop
  | sized bits => bits.Complete
  | unsized _ | fill _ => True

namespace Expression

mutual

/-- Every sized literal in the expression has a word for each of its bits. -/
def Complete : Expression → Prop
  | literal value => value.Complete
  | not operand => operand.Complete
  | binary _ left right => left.Complete ∧ right.Complete
  | concat parts => AllComplete parts

def AllComplete : List Expression → Prop
  | [] => True
  | part :: rest => part.Complete ∧ AllComplete rest

end

end Expression

namespace LogicVector

variable {a b v : LogicVector}

theorem widen_of_complete (complete : v.Complete) (context : Option Nat) :
    ∃ wider, v.widen context = .ok wider ∧ wider.Complete := by
  cases context with
  | none => exact ⟨v, rfl, complete⟩
  | some width =>
    rw [widen]
    by_cases narrow : v.width < width
    · refine ⟨_, ?_, complete_ofBits (padded width v.readable)⟩
      rw [if_pos narrow, extend_of_complete complete (Nat.le_of_lt narrow)]
    · exact ⟨v, if_neg narrow, complete⟩

/-- A sum or difference of complete vectors, by cases: too wide, of numbers, or unknown. -/
theorem arithmetic_of_complete (op : UInt64 → UInt64 → UInt64) (left : a.Complete)
    (right : b.Complete) :
    arithmetic op a b =
      if 64 < max a.width b.width then .refuse (.arithmeticTooWide (max a.width b.width))
      else if a.readable.all Logic.isKnown && b.readable.all Logic.isKnown then
        .ok (ofUInt64 (op (UInt64.ofNat (number a.readable)) (UInt64.ofNat (number b.readable)))
          (max a.width b.width))
      else .ok (filled (max a.width b.width) .x) := by
  have unknown (bits : List Logic) :
      bits.any (fun bit => !bit.isKnown) = !bits.all Logic.isKnown :=
    List.not_all_eq_any_not.symm
  unfold arithmetic
  by_cases wide : 64 < max a.width b.width
  · rw [if_pos wide, if_pos wide]
  · have narrow : ¬ 64 < a.width ∧ ¬ 64 < b.width := by omega
    rw [if_neg wide, if_neg wide, toUInt64?_of_complete left, toUInt64?_of_complete right]
    simp only [unknown, narrow, false_or]
    cases a.readable.all Logic.isKnown <;> cases b.readable.all Logic.isKnown <;> rfl

theorem arithmetic_safe (op : UInt64 → UInt64 → UInt64) (left : a.Complete) (right : b.Complete) :
    (arithmetic op a b).Safe Complete := by
  unfold arithmetic
  simp only [toUInt64?_of_complete left, toUInt64?_of_complete right]
  split
  · trivial
  · simp only [Attempt.ofChecked, bind, Except.bind]
    split
    · exact complete_ofUInt64 _ _
    · exact complete_filled _ _

end LogicVector

theorem Literal.value_safe {literal : Literal} (complete : literal.Complete)
    (context : Option Nat) : (literal.value context).Safe LogicVector.Complete := by
  cases literal with
  | unsized number => exact LogicVector.complete_ofUInt64 _ _
  | sized bits => exact complete
  | fill bit =>
    cases context with
    | none => trivial
    | some width => exact LogicVector.complete_filled _ _

theorem BinaryOperator.apply_safe (operator : BinaryOperator) {a b : LogicVector}
    (left : a.Complete) (right : b.Complete) :
    (operator.apply a b).Safe LogicVector.Complete := by
  have bitwise (op : Logic → Logic → Logic) :
      (Attempt.ofChecked (LogicVector.zipWith op a b) : Attempt FoldError LogicVector).Safe
        LogicVector.Complete :=
    .ofChecked (LogicVector.zipWith_of_complete op left right) (LogicVector.complete_ofBits _)
  cases operator with
  | and => exact bitwise Logic.and
  | or => exact bitwise Logic.or
  | xor => exact bitwise Logic.xor
  | add => exact LogicVector.arithmetic_safe _ left right
  | sub => exact LogicVector.arithmetic_safe _ left right

namespace Expression

theorem widen_safe {v : LogicVector} (complete : v.Complete) (context : Option Nat) :
    (Attempt.ofChecked (v.widen context) : Attempt FoldError LogicVector).Safe
      LogicVector.Complete := by
  obtain ⟨wider, widened, complete⟩ := LogicVector.widen_of_complete complete context
  exact .ofChecked widened complete

mutual

theorem fold_safe (context : Option Nat) (expression : Expression)
    (complete : expression.Complete) : (expression.fold context).Safe LogicVector.Complete := by
  cases expression with
  | literal value => exact Literal.value_safe complete context
  | not operand =>
    refine (fold_safe context operand complete).bind fun value whole => ?_
    refine (widen_safe whole context).bind fun wider whole => ?_
    exact .ofChecked (LogicVector.complement_of_complete whole) (LogicVector.complete_ofBits _)
  | binary operator left right =>
    refine (fold_safe context left complete.1).bind fun leftValue wholeLeft => ?_
    refine (widen_safe wholeLeft context).bind fun leftValue wholeLeft => ?_
    refine (fold_safe context right complete.2).bind fun rightValue wholeRight => ?_
    refine (widen_safe wholeRight context).bind fun rightValue wholeRight => ?_
    exact operator.apply_safe wholeLeft wholeRight
  | concat parts =>
    cases parts with
    | nil => trivial
    | cons first rest =>
      refine (fold_safe none first complete.1).bind fun value whole => ?_
      exact foldBelow_safe value rest whole complete.2

theorem foldBelow_safe (upper : LogicVector) (parts : List Expression) (whole : upper.Complete)
    (complete : AllComplete parts) : (foldBelow upper parts).Safe LogicVector.Complete := by
  cases parts with
  | nil => exact whole
  | cons part rest =>
    refine (fold_safe none part complete.1).bind fun value wholePart => ?_
    refine Attempt.Safe.bind (.ofChecked (LogicVector.append_of_complete whole wholePart)
      (LogicVector.complete_ofBits _)) fun upper whole => ?_
    exact foldBelow_safe upper rest whole complete.2

end

/-- A complete initializer is evaluated or turned down. -/
theorem fit_safe {initializer : Expression} (complete : initializer.Complete) (width : Nat)
    (site : Site) : (initializer.fit width site).Safe fun value => value.width = width := by
  unfold fit
  refine ((fold_safe (some width) initializer complete).mapReason _).bind fun value whole => ?_
  split
  · trivial
  · next fits =>
    have done := LogicVector.extend_of_complete whole (Nat.le_of_not_lt fits)
    exact .ofChecked done (LogicVector.width_of_extend done)

theorem width_of_fit {initializer : Expression} {width : Nat} {site : Site} {value : LogicVector}
    (done : initializer.fit width site = .ok value) : value.width = width := by
  obtain ⟨folded, _, done⟩ := ok_of_bind done
  split at done
  · cases done
  · cases extended : folded.extend width with
    | error fault =>
      rw [extended] at done
      cases done
    | ok wider =>
      rw [extended] at done
      cases done
      exact LogicVector.width_of_extend extended

/-- An initializer is turned down for its width or because it has no value. -/
theorem fit_refused {initializer : Expression} {width : Nat} {site : Site} {rejection : Rejection}
    (refused : initializer.fit width site = .error (.refused rejection)) :
    (∃ valueWidth, rejection = .widthMismatch site valueWidth width) ∨
      ∃ reason, rejection = .notConstant site reason := by
  unfold fit at refused
  -- The value may be missing, too wide, or unreadable, which is a fault and no refusal.
  cases folded : initializer.fold (some width) with
  | error stop =>
    rw [folded] at refused
    cases stop with
    | broken fault => cases refused
    | refused reason =>
      cases refused
      exact .inr ⟨reason.message, rfl⟩
  | ok value =>
    simp only [folded, Attempt.mapReason, bind, Except.bind] at refused
    split at refused
    · cases refused
      exact .inl ⟨value.width, rfl⟩
    · cases extended : value.extend width <;> rw [extended] at refused <;> cases refused

end Expression

namespace Signal

variable {signal : Signal} {target : SignalId} {site : Site} {drive : Drive}

/-- The drive of a signal is on the signal and as wide. -/
theorem drive?_cases {origin : Origin}
    (done : signal.drive? target origin site = .ok (some drive)) :
    drive.target = target ∧ drive.value.width = signal.type.width.toNat := by
  cases origin with
  | undriven => cases done
  | companion =>
    cases done
    exact ⟨rfl, LogicVector.width_filled _ _⟩
  | twoState =>
    cases done
    exact ⟨rfl, LogicVector.width_filled _ _⟩
  | declared initializer =>
    obtain ⟨value, fitted, done⟩ := ok_of_bind done
    cases done
    exact ⟨rfl, Expression.width_of_fit fitted⟩

end Signal

end HdlPorts
