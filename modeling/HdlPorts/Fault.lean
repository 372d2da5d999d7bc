/-! How an operation ends when it has no result.

A fault is a broken value or call: a position past the end of a vector, a key from another table.
It says nothing about the design that is elaborated. A refusal is the opposite: the input is well
formed as a value and is turned down for a reason of its own. `Checked` allows only faults,
`Attempt` both.
-/

set_option autoImplicit false

namespace HdlPorts

/-- A value or call that breaks a rule its maker had to keep. -/
inductive Fault where
  /-- A bit at or above the width. -/
  | bitOutOfRange (index width : Nat)
  | narrowingExtension (width target : Nat)
  /-- A bit below the width whose word is not there. -/
  | missingWord
  | unknownName
  | unknownSlot
  /-- Two places in different files that should have been in one. -/
  | separateFiles
  /-- A byte range that ends inside a character or outside the text. -/
  | splitCharacter
  /-- An initializer text that is no literal. -/
  | unreadableLiteral (text : String)
  /-- Settings that could not be read or used. -/
  | unusableSettings
  deriving DecidableEq

/-- What is said about a fault; nothing where the place alone matters. -/
def Fault.message? : Fault → Option String
  | .bitOutOfRange index width => some s!"bit {index} out of range for width {width}"
  | .narrowingExtension width target => some s!"cannot zero-extend {width} bits to {target}"
  | .unreadableLiteral text => some ("bad literal `" ++ text ++ "`")
  | _ => none

/-- A result, or the fault that was met. -/
abbrev Checked (α : Type) := Except Fault α

inductive Stop (ε : Type) where
  | broken (fault : Fault)
  | refused (reason : ε)
  deriving DecidableEq

/-- A result, a refusal for a reason in `ε`, or a fault. -/
abbrev Attempt (ε α : Type) := Except (Stop ε) α

namespace Attempt

variable {ε δ α : Type}

def refuse (reason : ε) : Attempt ε α := .error (.refused reason)

/-- A checked result as an attempt that refuses nothing. -/
def ofChecked : Checked α → Attempt ε α
  | .ok value => .ok value
  | .error fault => .error (.broken fault)

/-- State the reasons for a refusal in other terms. -/
def mapReason (f : ε → δ) : Attempt ε α → Attempt δ α
  | .ok value => .ok value
  | .error (.broken fault) => .error (.broken fault)
  | .error (.refused reason) => .error (.refused (f reason))

end Attempt

end HdlPorts
