import HdlPorts.Declaration.Expression

/-! The value of a constant expression.

An expression is evaluated in a context that may give a width: that of the target. Outside a
concatenation, operands are first widened to the context, and a fill literal takes its width.
Operators with two operands then work at the larger of their widths; sums and differences wrap at
that width and are all `x` if any bit of an operand is not known. The parts of a concatenation have
no context.
-/

set_option autoImplicit false

namespace HdlPorts

inductive FoldError where
  | emptyConcat
  /-- A fill literal where no width is given. -/
  | unsizedFill (bit : Logic)
  | arithmeticTooWide (width : Nat)
  deriving DecidableEq

def FoldError.message : FoldError → String
  | emptyConcat => "empty concatenation"
  | unsizedFill bit =>
    "fill literal `\x27" ++ bit.toChar.toString ++ "` has no width inside a concatenation"
  | arithmeticTooWide width =>
    "arithmetic on " ++ toString width ++ "-bit operands is not supported (maximum 64)"

namespace LogicVector

/-- Widen to the width of the context, if there is one and it is larger. -/
def widen (v : LogicVector) : Option Nat → Checked LogicVector
  | some width => if v.width < width then v.extend width else .ok v
  | none => .ok v

/-- A sum or difference at the larger width. -/
def arithmetic (op : UInt64 → UInt64 → UInt64) (a b : LogicVector) :
    Attempt FoldError LogicVector :=
  let width := max a.width b.width
  if 64 < width then .refuse (.arithmeticTooWide width)
  else do
    match ← Attempt.ofChecked a.toUInt64?, ← Attempt.ofChecked b.toUInt64? with
    | some left, some right => return ofUInt64 (op left right) width
    | _, _ => return filled width .x

end LogicVector

def Literal.value (context : Option Nat) : Literal → Attempt FoldError LogicVector
  | unsized number => .ok (.ofUInt64 number (minimalWidth number.toNat))
  | sized bits => .ok bits
  | fill bit =>
    match context with
    | some width => .ok (.filled width bit)
    | none => .refuse (.unsizedFill bit)

def BinaryOperator.apply (a b : LogicVector) : BinaryOperator → Attempt FoldError LogicVector
  | and => .ofChecked (LogicVector.zipWith Logic.and a b)
  | or => .ofChecked (LogicVector.zipWith Logic.or a b)
  | xor => .ofChecked (LogicVector.zipWith Logic.xor a b)
  | add => LogicVector.arithmetic (· + ·) a b
  | sub => LogicVector.arithmetic (· - ·) a b

namespace Expression

mutual

/-- The value of an expression in a context. It has a width of its own, which may be larger or
smaller than that of the context. -/
def fold (context : Option Nat) : Expression → Attempt FoldError LogicVector
  | literal value => value.value context
  | not operand => do
    let value ← fold context operand
    let value ← Attempt.ofChecked (value.widen context)
    Attempt.ofChecked value.complement
  | binary operator left right => do
    let leftValue ← fold context left
    let leftValue ← Attempt.ofChecked (leftValue.widen context)
    let rightValue ← fold context right
    let rightValue ← Attempt.ofChecked (rightValue.widen context)
    operator.apply leftValue rightValue
  | concat [] => .refuse .emptyConcat
  | concat (first :: rest) => do
    let value ← fold none first
    foldBelow value rest

/-- The value of `upper` followed by the values of `parts`. -/
def foldBelow (upper : LogicVector) : List Expression → Attempt FoldError LogicVector
  | [] => .ok upper
  | part :: rest => do
    let value ← fold none part
    let upper ← Attempt.ofChecked (upper.append value)
    foldBelow upper rest

end

end Expression

end HdlPorts
