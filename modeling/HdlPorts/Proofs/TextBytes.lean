import HdlPorts.Source.Lines
import Mathlib.Data.String.Basic

/-! Texts and their bytes.

A cut gives a text exactly where the whole falls apart there into three texts. A newline byte is
never a part of another character, so newlines can be searched for in bytes.
-/

set_option autoImplicit false

namespace HdlPorts

open String (utf8EncodeChar utf8Len)

namespace Utf8

variable {chars taken left : List Char} {char : Char} {count start stop : Nat} {text piece : String}

/-! ## Bytes -/

theorem length_flatMap_encode (chars : List Char) :
    (chars.flatMap utf8EncodeChar).length = utf8Len chars := by
  induction chars with
  | nil => rfl
  | cons char rest ih =>
    rw [List.flatMap_cons, List.length_append, String.length_utf8EncodeChar, ih, String.utf8Len_cons,
      Nat.add_comm]

theorem length_bytes (text : String) : (bytes text).length = text.utf8ByteSize := by
  rw [bytes, length_flatMap_encode, String.utf8Len_toList]

end Utf8

end HdlPorts
