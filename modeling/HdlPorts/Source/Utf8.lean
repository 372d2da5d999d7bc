/-! Texts measured and cut in bytes of their UTF-8 form.

A cut is made only where a character ends. Asking for any other gives nothing.
-/

set_option autoImplicit false

namespace HdlPorts.Utf8

def bytes (text : String) : List UInt8 := text.toList.flatMap String.utf8EncodeChar

/-- The first characters of a list that take up exactly `count` bytes, and the others. -/
def split? : Nat → List Char → Option (List Char × List Char)
  | 0, chars => some ([], chars)
  | _ + 1, [] => none
  | count + 1, char :: rest =>
    if char.utf8Size ≤ count + 1 then
      (split? (count + 1 - char.utf8Size) rest).map fun (taken, left) => (char :: taken, left)
    else
      none

/-- The text between two byte positions. -/
def slice? (text : String) (start stop : Nat) : Option String :=
  if start ≤ stop then do
    let (_, fromStart) ← split? start text.toList
    let (taken, _) ← split? (stop - start) fromStart
    return String.ofList taken
  else
    none

end HdlPorts.Utf8
