import HdlPorts.Bits.Operations

/-! Vectors as text.

Digits are written with the highest bit first. The sized text `<width>'b<digits>` shows any vector;
the value text is shorter where it can be and is what entities are printed with.
-/

set_option autoImplicit false

namespace HdlPorts.LogicVector

/-- Mark between the size and the base of a literal. -/
def quote : Char := '\x27'

/-- Read digits, highest bit first. Underscores are skipped; nothing else is, and there has to be
a digit. -/
def parse? (text : String) : Option LogicVector :=
  match (text.toList.filter (· != '_')).mapM Logic.ofChar? with
  | none => none
  | some [] => none
  | some digits => some (ofBits digits.reverse)

def digits (v : LogicVector) : Checked String := do
  let bits ← v.bits
  return String.ofList (bits.reverse.map Logic.toChar)

def sizedText (v : LogicVector) : Checked String := do
  let digits ← v.digits
  return toString v.width ++ quote.toString ++ "b" ++ digits

/-- An unsigned decimal number where the vector is one, otherwise the sized text. -/
def valueText (v : LogicVector) : Checked String := do
  match ← v.toUInt64? with
  | some number => return toString number.toNat
  | none => v.sizedText

end HdlPorts.LogicVector
