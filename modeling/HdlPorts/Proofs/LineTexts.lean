import HdlPorts.Proofs.LinePositions
import HdlPorts.Proofs.Traversals

/-! The texts of the lines make up the text.

Cut a text at its newlines. The index holds where the pieces start, since no newline byte is part of
another character, and a line is cut out between the bytes of what comes before and after its piece.
So every cut is between characters, whatever offset of the line was asked for.
-/

set_option autoImplicit false

namespace HdlPorts.SourceText

open String (utf8EncodeChar utf8Len)

variable {source : SourceText} {bytes : List UInt8} {chars piece : List Char}
  {pieces : List (List Char)} {text : String} {position offset start index : Nat}

/-- The texts between the newlines. -/
def lines (source : SourceText) : List String :=
  (source.content.toList.splitOn '\n').map String.ofList

/-- A text is what stands between the bounds of a line, which are between characters. -/
structure HoldsLine (source : SourceText) (line : Nat) (text : String) : Prop where
  start_listed : source.lineStarts[line - 1]? = some (source.lineStart line)
  next_pos : ∀ next, source.lineStarts[line]? = some next → 0 < next
  ordered : source.lineStart line ≤ source.lineEnd line
  bounded : source.lineEnd line ≤ source.content.utf8ByteSize
  start_valid : String.Pos.Raw.IsValid source.content ⟨source.lineStart line⟩
  end_valid : String.Pos.Raw.IsValid source.content ⟨source.lineEnd line⟩
  bytes_eq : Utf8.bytes text = ((Utf8.bytes source.content).drop (source.lineStart line)).take
    (source.lineEnd line - source.lineStart line)
  no_newline : '\n' ∉ text.toList

example : (SourceText.mk "c.sv" "a\nbé\n").lineText 4 = .ok "bé" := by decide

end HdlPorts.SourceText
