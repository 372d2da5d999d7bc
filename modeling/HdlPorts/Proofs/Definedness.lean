import HdlPorts.Proofs.IntegerValues

/-! Which expressions have a value, and how wide it is.

An expression is turned down at one of its nodes: at a concatenation of nothing, at a fill that has
no context, or at a sum or difference of more than 64 bits. Nodes are come to from left to right,
operands before their operator, and the first that is at fault gives the reason. If none is, there
is a value, and its width can be read off the expression and its context.
-/

set_option autoImplicit false

namespace HdlPorts

/-! ## Nodes -/

/-- An expression where it stands in another one, with the context it has there. -/
structure Node where
  context : Option Nat
  expression : Expression

def BinaryOperator.isArithmetic : BinaryOperator → Bool
  | add | sub => true
  | and | or | xor => false

namespace Node

def width (node : Node) : Nat := node.expression.widthIn node.context

/-- What is wrong with a node, taken by itself. -/
def offence? (node : Node) : Option FoldError :=
  match node.expression with
  | .literal (.fill bit) => if node.context = none then some (.unsizedFill bit) else none
  | .literal _ | .not _ => none
  | .binary operator _ _ =>
    if operator.isArithmetic ∧ 64 < node.width then some (.arithmeticTooWide node.width) else none
  | .concat parts => if parts = [] then some .emptyConcat else none

end Node

namespace Expression

mutual

/-- The nodes of an expression, operands before their operator. -/
def nodes (context : Option Nat) : Expression → List Node
  | literal value => [⟨context, literal value⟩]
  | not operand => operand.nodes context ++ [⟨context, not operand⟩]
  | binary operator left right =>
    left.nodes context ++ right.nodes context ++ [⟨context, binary operator left right⟩]
  | concat parts => nodesOf parts ++ [⟨context, concat parts⟩]

/-- The nodes of the parts of a concatenation, which have no context. -/
def nodesOf : List Expression → List Node
  | [] => []
  | part :: rest => part.nodes none ++ nodesOf rest

end

/-- There is something in every concatenation, every fill has a context, and no sum or difference is
too wide. -/
structure Defined (context : Option Nat) (expression : Expression) : Prop where
  joins : ∀ node ∈ expression.nodes context, node.expression ≠ .concat []
  fills : ∀ node ∈ expression.nodes context, ∀ bit,
    node.expression = .literal (.fill bit) → node.context ≠ none
  sums : ∀ node ∈ expression.nodes context, ∀ operator left right,
    node.expression = .binary operator left right → operator.isArithmetic → node.width ≤ 64

end Expression

/-! ## Outcomes -/

/-- The attempt is refused for the reason, if there is one. Otherwise it gives a vector of the
width, with all its words. -/
inductive Settles (width : Nat) : Option FoldError → Attempt FoldError LogicVector → Prop where
  | value {v : LogicVector} : v.Complete → v.width = width → Settles width none (.ok v)
  | refusal (error : FoldError) : Settles width (some error) (.refuse error)

namespace Settles

variable {width total : Nat} {first second : Option FoldError}
  {attempt : Attempt FoldError LogicVector} {rest : LogicVector → Attempt FoldError LogicVector}

theorem bind (settles : Settles width first attempt)
    (next : ∀ v : LogicVector, v.Complete → v.width = width → Settles total second (rest v)) :
    Settles total (first.or second) (attempt >>= rest) := by
  cases settles with
  | value complete same => exact next _ complete same
  | refusal error => exact .refusal error

/-- A step that cannot be refused. -/
theorem andThen (settles : Settles width none attempt)
    (next : ∀ v : LogicVector, v.Complete → v.width = width → Settles total second (rest v)) :
    Settles total second (attempt >>= rest) :=
  settles.bind next

theorem ofBits {checked : Checked LogicVector} {bits : List Logic}
    (result : checked = .ok (.ofBits bits)) (length : bits.length = width) :
    Settles width none (Attempt.ofChecked checked) := by
  rw [result]
  exact .value (LogicVector.complete_ofBits bits) length

theorem ok_iff (settles : Settles width first attempt) :
    (∃ v, attempt = .ok v) ↔ first = none := by
  cases settles with
  | value _ _ => simp
  | refusal error => simp [Attempt.refuse]

theorem refused_iff (settles : Settles width first attempt) (error : FoldError) :
    attempt = .refuse error ↔ first = some error := by
  cases settles with
  | value _ _ => simp [Attempt.refuse]
  | refusal own => simp [Attempt.refuse]

theorem width_of_ok (settles : Settles width first attempt) {v : LogicVector}
    (done : attempt = .ok v) : v.width = width := by
  cases settles with
  | value _ same => exact Except.ok.inj done ▸ same
  | refusal error => cases done

theorem unbroken (settles : Settles width first attempt) : attempt.Unbroken := by
  cases settles with
  | value _ _ => exact Attempt.unbroken_ok _
  | refusal error => exact Attempt.unbroken_refuse error

end Settles

section Operations

variable {a b v : LogicVector}

theorem widen_settles (complete : v.Complete) (context : Option Nat) :
    Settles (max (context.getD 0) v.width) none (Attempt.ofChecked (v.widen context)) := by
  cases context with
  | none => exact .value complete (by simp)
  | some width =>
    by_cases narrow : v.width < width
    · have wider : v.widen (some width) = .ok (.ofBits (LogicVector.padded width v.readable)) := by
        rw [LogicVector.widen, if_pos narrow,
          LogicVector.extend_of_complete complete (Nat.le_of_lt narrow)]
      refine .ofBits wider ?_
      rw [length_padded_eq_max, LogicVector.length_readable complete]
      rfl
    · rw [LogicVector.widen, if_neg narrow]
      exact .value complete (Nat.max_eq_right (Nat.le_of_not_lt narrow)).symm

theorem complement_settles (complete : v.Complete) :
    Settles v.width none (Attempt.ofChecked v.complement) :=
  .ofBits (LogicVector.complement_of_complete complete)
    (by rw [List.length_map, LogicVector.length_readable complete])

theorem append_settles (high : a.Complete) (low : b.Complete) :
    Settles (a.width + b.width) none (Attempt.ofChecked (a.append b)) :=
  .ofBits (LogicVector.append_of_complete high low)
    (by rw [List.length_append, LogicVector.length_readable high, LogicVector.length_readable low,
      Nat.add_comm])

theorem zipWith_settles (op : Logic → Logic → Logic) (left : a.Complete) (right : b.Complete) :
    Settles (max a.width b.width) none (Attempt.ofChecked (LogicVector.zipWith op a b)) :=
  .ofBits (LogicVector.zipWith_of_complete op left right)
    (by rw [List.length_zipWith, length_padded_eq_max, length_padded_eq_max,
      LogicVector.length_readable left, LogicVector.length_readable right]; omega)

theorem arithmetic_settles (op : UInt64 → UInt64 → UInt64) (left : a.Complete)
    (right : b.Complete) :
    Settles (max a.width b.width)
      (if 64 < max a.width b.width then some (.arithmeticTooWide (max a.width b.width)) else none)
      (LogicVector.arithmetic op a b) := by
  rw [LogicVector.arithmetic_of_complete op left right]
  split
  · exact .refusal _
  · split
    · exact .value (LogicVector.complete_ofUInt64 _ _) (length_binary _ _)
    · exact .value (LogicVector.complete_filled _ _) (LogicVector.width_filled _ _)

/-- An operator has the larger width, and only arithmetic is ever too wide. -/
theorem BinaryOperator.apply_settles (operator : BinaryOperator) (left : a.Complete)
    (right : b.Complete) :
    Settles (max a.width b.width)
      (if operator.isArithmetic ∧ 64 < max a.width b.width then
        some (.arithmeticTooWide (max a.width b.width)) else none)
      (operator.apply a b) := by
  cases operator with
  | and => simpa [isArithmetic, apply] using zipWith_settles Logic.and left right
  | or => simpa [isArithmetic, apply] using zipWith_settles Logic.or left right
  | xor => simpa [isArithmetic, apply] using zipWith_settles Logic.xor left right
  | add => simpa [isArithmetic, apply] using arithmetic_settles (· + ·) left right
  | sub => simpa [isArithmetic, apply] using arithmetic_settles (· - ·) left right

end Operations

/-! ## Evaluation -/

namespace Expression

theorem literal_settles {value : Literal} (complete : value.Complete) (context : Option Nat) :
    Settles (value.widthIn context) (Node.offence? ⟨context, literal value⟩)
      (value.value context) := by
  cases value with
  | unsized number => exact .value (LogicVector.complete_ofUInt64 _ _) (length_binary _ _)
  | sized bits => exact .value complete rfl
  | fill bit =>
    cases context with
    | none => exact .refusal _
    | some width => exact .value (LogicVector.complete_filled _ _) (LogicVector.width_filled _ _)

mutual

/-- The first node at fault decides. The reasons are put together in the order in which the
evaluation comes to them, and widths as they come up from the operands. -/
theorem fold_settles (context : Option Nat) (expression : Expression)
    (complete : expression.Complete) :
    Settles (expression.widthIn context) ((expression.nodes context).findSome? Node.offence?)
      (expression.fold context) := by
  cases expression with
  | literal value =>
    rw [nodes, List.findSome?_singleton, widthIn, fold]
    exact literal_settles complete context
  | not operand =>
    have width : widthIn context (.not operand) =
        max (context.getD 0) (operand.widthIn context) := by rw [widthIn]
    have own : Node.offence? ⟨context, .not operand⟩ = none := rfl
    rw [nodes, List.findSome?_append, List.findSome?_singleton, own, fold, width]
    refine (fold_settles context operand complete).bind fun value whole same => ?_
    refine (same ▸ widen_settles whole context).andThen fun wider whole same => ?_
    exact same ▸ complement_settles whole
  | binary operator left right =>
    have width : widthIn context (.binary operator left right) =
        max (max (context.getD 0) (left.widthIn context))
          (max (context.getD 0) (right.widthIn context)) := by
      rw [widthIn]
      omega
    have own : Node.offence? ⟨context, .binary operator left right⟩ =
        if operator.isArithmetic ∧ 64 < widthIn context (.binary operator left right) then
          some (.arithmeticTooWide (widthIn context (.binary operator left right)))
        else none := rfl
    rw [nodes, List.findSome?_append, List.findSome?_append, List.findSome?_singleton, own, fold,
      Option.or_assoc, width]
    refine (fold_settles context left complete.1).bind fun leftValue whole same => ?_
    refine (same ▸ widen_settles whole context).andThen
      fun leftWider wholeLeft sameLeft => ?_
    refine (fold_settles context right complete.2).bind fun rightValue whole same => ?_
    refine (same ▸ widen_settles whole context).andThen
      fun rightWider wholeRight sameRight => ?_
    rw [← sameLeft, ← sameRight]
    exact operator.apply_settles wholeLeft wholeRight
  | concat parts =>
    cases parts with
    | nil => exact .refusal _
    | cons first rest =>
      have own : Node.offence? ⟨context, .concat (first :: rest)⟩ = none := rfl
      rw [nodes, nodesOf, List.findSome?_append, List.findSome?_append, List.findSome?_singleton,
        own, Option.or_none, widthIn, totalWidth, fold]
      refine (fold_settles none first complete.1).bind fun value whole same => ?_
      exact same ▸ foldBelow_settles value rest whole complete.2

theorem foldBelow_settles (upper : LogicVector) (parts : List Expression) (whole : upper.Complete)
    (complete : AllComplete parts) :
    Settles (upper.width + totalWidth parts) ((nodesOf parts).findSome? Node.offence?)
      (foldBelow upper parts) := by
  cases parts with
  | nil => exact .value whole (by rw [totalWidth, Nat.add_zero])
  | cons part rest =>
    rw [nodesOf, List.findSome?_append, totalWidth, ← Nat.add_assoc, foldBelow]
    refine (fold_settles none part complete.1).bind fun lower wholeLower same => ?_
    refine (same ▸ append_settles whole wholeLower).andThen
      fun joined wholeJoined same => ?_
    exact same ▸ foldBelow_settles joined rest wholeJoined complete.2

end

/-- No node is at fault exactly if the expression is defined. -/
theorem defined_iff {context : Option Nat} {expression : Expression} :
    expression.Defined context ↔
      (expression.nodes context).findSome? Node.offence? = none := by
  rw [List.findSome?_eq_none_iff]
  constructor
  · intro defined node member
    have joins := defined.joins node member
    have fills := defined.fills node member
    have sums := defined.sums node member
    unfold Node.offence?
    split
    · next bit same => exact if_neg (fills bit same)
    · rfl
    · rfl
    · next operator left right same =>
      exact if_neg fun ⟨arithmetic, wide⟩ =>
        absurd (sums operator left right same arithmetic) (Nat.not_le.mpr wide)
    · next parts same => exact if_neg fun empty => joins (same.trans (congrArg _ empty))
  · intro none
    refine ⟨?_, ?_, ?_⟩
    · intro node member same
      simpa [Node.offence?, same] using none node member
    · intro node member bit same
      simpa [Node.offence?, same] using none node member
    · intro node member operator left right same arithmetic
      simpa [Node.offence?, same, arithmetic] using none node member

/-- An expression has a value exactly if it is defined, and the value has the width that the
expression has in its context. Otherwise the first node at fault, operands before their operator,
gives the reason, and no other node before it is at fault. -/
theorem fold_by_nodes {expression : Expression} (complete : expression.Complete)
    (context : Option Nat) :
    ((∃ value, expression.fold context = .ok value) ↔ expression.Defined context) ∧
      (∀ value, expression.fold context = .ok value →
        value.width = expression.widthIn context ∧
          ∀ literal width, expression = .literal literal → literal.width? = some width →
            value.width = width) ∧
      (expression.fold context).Unbroken ∧
      ∀ error, expression.fold context = .refuse error ↔
        ∃ before node after, expression.nodes context = before ++ node :: after ∧
          node.offence? = some error ∧ ∀ earlier ∈ before, earlier.offence? = none := by
  have settles := fold_settles context expression complete
  refine ⟨settles.ok_iff.trans defined_iff.symm, ?_, settles.unbroken, ?_⟩
  · intro value done
    have same := settles.width_of_ok done
    refine ⟨same, ?_⟩
    rintro literal width rfl own
    rw [same, widthIn, Literal.widthIn, own]
    rfl
  · intro error
    rw [settles.refused_iff error, List.findSome?_eq_some_iff]

end Expression

/-! ## Three nodes at fault -/

namespace Sample

/-- A sum of 65 bits in front of a fill and of an empty concatenation. -/
def offenders : Expression :=
  .concat [
    .binary .add (.literal (.sized (.zeros 65))) (.literal (.unsized 1)),
    .literal (.fill .z),
    .concat []]

theorem complete_offenders : offenders.Complete :=
  ⟨⟨LogicVector.complete_filled 65 .zero, trivial⟩, trivial, trivial, trivial⟩

end Sample

/-- The sum comes first, and its own width is reported, not that of the context. -/
theorem Expression.fold_by_nodes_offenders :
    Sample.offenders.fold (some 80) = .refuse (.arithmeticTooWide 65) := by
  obtain ⟨_, _, _, refused⟩ := Expression.fold_by_nodes Sample.complete_offenders (some 80)
  refine (refused (.arithmeticTooWide 65)).mpr ⟨
    [⟨none, .literal (.sized (.zeros 65))⟩, ⟨none, .literal (.unsized 1)⟩], _, _, rfl, ?_, ?_⟩
  · decide
  · intro earlier member
    rcases List.mem_cons.mp member with rfl | member
    · rfl
    · rw [List.mem_singleton.mp member]
      rfl

end HdlPorts
