import HdlPorts.Proofs.LiteralForms

/-! Based literals denote their digits.

The digits of a based literal are written with the highest first, and each of them stands for a
fixed number of bits. So a bit of the literal is found from the right: its place says which digit it
is in and where. Above the digits an unknown leading digit goes on, and otherwise there are zeros.
A size cuts the bits off at its width, which is allowed where they are zero. The digits of a decimal
literal are the number that they write.
-/

set_option autoImplicit false

namespace HdlPorts.Literal

open LogicVector (quote)

/-! ## What is denoted -/

namespace Base

variable {base : Base} {digits : List Char}

end Base

/-! ## Fitting -/

variable {size : Option UInt32} {count number : Nat} {bits : Nat → Logic} {v : LogicVector}

section Letters

variable {size : Option Nat} {digits : List Char} {letter : Char} (nonempty : digits ≠ [])

include nonempty

end Letters

section Denotation

variable {size : Option UInt32} {digits chars : List Char} {literal : Literal}

end Denotation

end HdlPorts.Literal
