import HdlPorts.Declaration.Literal

/-! Constant expressions: literals, complements, operations on two operands and concatenations.

Nothing in an expression refers to a signal or a parameter.
-/

set_option autoImplicit false

namespace HdlPorts

inductive BinaryOperator where
  | and
  | or
  | xor
  | add
  | sub
  deriving DecidableEq

/-- An expression that can be evaluated where it stands. -/
inductive Expression where
  | literal (value : Literal)
  | not (operand : Expression)
  | binary (operator : BinaryOperator) (left right : Expression)
  /-- The first part ends up in the highest bits. -/
  | concat (parts : List Expression)

/-- The literal, if the expression is nothing else. -/
def Expression.literal? : Expression → Option Literal
  | literal value => some value
  | _ => none

end HdlPorts
