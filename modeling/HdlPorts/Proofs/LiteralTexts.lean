import HdlPorts.Proofs.Numbers
import HdlPorts.Proofs.PackedForm
import Mathlib.Data.List.TakeWhile

/-! Values that are written are read back.

A value is written as a decimal number, which says nothing of its width, or with its width and its
digits, which says all. Read as a literal the first gives the number and the second gives the vector.
Driving an output of the width of the value brings a number back to that width, so either way the
output is driven with the value that was written.
-/

set_option autoImplicit false

namespace HdlPorts

open LogicVector (quote)

/-! ## Reading what was written -/

namespace Literal

variable {bits : List Logic} {number limit : Nat}

theorem digits_ne_plus (number : Nat) : (Nat.toDigits 10 number).head? ≠ some '+' := by
  intro first
  have digit := List.all_eq_true.mp (toDigits_all number) '+' (List.mem_of_mem_head? first)
  exact absurd digit (by decide)

/-- Without a plus sign all characters have to be digits. -/
theorem decimal?_unsigned {chars : List Char} (unsigned : chars.head? ≠ some '+') :
    decimal? limit chars =
      if chars.isEmpty then none
      else if chars.all Char.isDigit then
        if Nat.ofDigitChars 10 chars 0 < limit then some (Nat.ofDigitChars 10 chars 0) else none
      else none := by
  cases chars with
  | nil => rfl
  | cons first rest =>
    have other : first ≠ '+' := fun same => unsigned (same ▸ rfl)
    simp [decimal?, other]

theorem decimal?_toDigits (small : number < limit) :
    decimal? limit (Nat.toDigits 10 number) = some number := by
  have nonempty : (Nat.toDigits 10 number).isEmpty = false := by simp [Nat.toDigits_ne_nil]
  rw [decimal?_unsigned (digits_ne_plus number), nonempty, toDigits_all,
    Nat.ofDigitChars_ten_toDigits, if_pos rfl, if_pos small]
  rfl

theorem splitQuote?_unmarked {chars : List Char} (unmarked : quote ∉ chars) :
    splitQuote? chars = none := by
  have before : ∀ char ∈ chars, (char != quote) = true :=
    fun char member => bne_iff_ne.mpr fun same => unmarked (same ▸ member)
  rw [splitQuote?, List.dropWhile_eq_nil_iff.mpr before]

theorem splitQuote?_marked {size : List Char} (unmarked : quote ∉ size) (rest : List Char) :
    splitQuote? (size ++ quote :: rest) = some (size, rest) := by
  have before : ∀ char ∈ size, (char != quote) = true :=
    fun char member => bne_iff_ne.mpr fun same => unmarked (same ▸ member)
  rw [splitQuote?, List.dropWhile_append_of_pos before, List.takeWhile_append_of_pos before]
  simp

theorem expand?_toChar (bits : List Logic) : expand? 1 (bits.map Logic.toChar) = some bits := by
  have each (bit : Logic) : digitBits? 1 bit.toChar = some [bit] := by cases bit <;> decide
  have digits : (bits.map Logic.toChar).mapM (digitBits? 1) = some (bits.map fun bit => [bit]) := by
    induction bits with
    | nil => rfl
    | cons bit rest ih =>
      rw [List.map_cons, List.mapM_cons, each, ih]
      rfl
  rw [expand?, digits, Option.map_some, ← List.flatMap_def, List.flatMap_singleton']

theorem read?_decimal (small : number < UInt64.size) :
    read? (Nat.toDigits 10 number) = some (.unsized (UInt64.ofNat number)) := by
  rw [read?, splitQuote?_unmarked (LogicVector.quote_not_mem_toDigits number)]
  simp [decimal?_toDigits small]

theorem size?_toDigits (positive : 0 < number) (small : number < UInt32.size) :
    size? (Nat.toDigits 10 number) = some (some number) := by
  have read := decimal?_toDigits small
  cases digits : Nat.toDigits 10 number with
  | nil => exact absurd digits Nat.toDigits_ne_nil
  | cons first rest =>
    rw [digits] at read
    rw [size?, read]
    · cases number with
      | zero => cases positive
      | succ _ => rfl
    · simp

/-- As many bits as the size says are taken as they are. -/
theorem fit?_own (bits : List Logic) : fit? (some bits.length) bits = some (.ofBits bits.reverse) := by
  simp [fit?]

theorem based?_binary (positive : 0 < bits.length) :
    based? (some bits.length) ('b' :: bits.map Logic.toChar) = some (.ofBits bits.reverse) := by
  have nonempty : (bits.map Logic.toChar).isEmpty = false := by
    cases bits with
    | nil => cases positive
    | cons bit rest => rfl
  simp only [based?, nonempty, expand?_toChar]
  exact fit?_own bits

/-- A size and as many digits are read as they stand. -/
theorem read?_sized (positive : 0 < bits.length) (small : bits.length < UInt32.size) :
    read? (Nat.toDigits 10 bits.length ++ quote :: 'b' :: bits.reverse.map Logic.toChar) =
      some (.sized (.ofBits bits)) := by
  have size := size?_toDigits positive small
  have based := based?_binary (show 0 < bits.reverse.length by rwa [List.length_reverse])
  rw [List.length_reverse, List.reverse_reverse] at based
  rw [read?, splitQuote?_marked (LogicVector.quote_not_mem_toDigits bits.length)]
  -- A fill has nothing in front of the mark, and a size has a digit.
  cases digits : Nat.toDigits 10 bits.length with
  | nil => exact absurd digits Nat.toDigits_ne_nil
  | cons first rest =>
    rw [digits] at size
    have unsigned (chars : List Char) : dropSigned ('b' :: chars) = 'b' :: chars := rfl
    simp only [size, unsigned, based, bind, Option.bind]
    rfl

/-- Nothing that is written has an underscore in it, so nothing is left out when it is read. -/
theorem parse?_of_read? {text : String} {literal : Literal} (plain : '_' ∉ text.toList)
    (read : read? text.toList = some literal) : parse? text = some literal := by
  have same : text.toList.filter (· != '_') = text.toList :=
    List.filter_eq_self.mpr fun char member => bne_iff_ne.mpr fun same => plain (same ▸ member)
  rw [parse?, same, read]

/-- The literal stands for the bits: as a number that leaves their width open, or as they are. -/
inductive Shows (bits : List Logic) : Literal → Prop where
  | counted {word : UInt64} : bits.all Logic.isKnown = true →
      word.toNat = LogicVector.number bits → Shows bits (.unsized word)
  | sized : Shows bits (.sized (.ofBits bits))

end Literal

/-! ## Writing -/

namespace LogicVector

variable {bits : List Logic}

theorem sizedText_ofBits (bits : List Logic) :
    ∃ text, (ofBits bits).sizedText = .ok text ∧
      text.toList = Nat.toDigits 10 bits.length ++ quote :: 'b' :: bits.reverse.map Logic.toChar := by
  have written : (ofBits bits).sizedText = .ok (toString bits.length ++ quote.toString ++ "b" ++
      String.ofList (bits.reverse.map Logic.toChar)) := by
    simp only [sizedText, digits, bits_ofBits]
    rfl
  exact ⟨_, written, by simp [Char.toString]⟩

/-- The sized text of a vector is a literal of the same vector. -/
theorem parse?_sizedText (positive : 0 < bits.length) (small : bits.length < UInt32.size) :
    ∃ text, (ofBits bits).sizedText = .ok text ∧
      Literal.parse? text = some (.sized (ofBits bits)) := by
  obtain ⟨text, written, chars⟩ := sizedText_ofBits bits
  have digit (bit : Logic) : bit.toChar ≠ '_' := by cases bit <;> decide
  refine ⟨text, written, Literal.parse?_of_read? ?_ ?_⟩
  · rw [chars]
    simp [quote, digit]
  · rw [chars]
    exact Literal.read?_sized positive small

/-- The value text of a vector is a literal that stands for its bits. -/
theorem parse?_valueText (positive : 0 < bits.length) (small : bits.length < UInt32.size) :
    ∃ text literal, (ofBits bits).valueText = .ok text ∧ Literal.parse? text = some literal ∧
      literal.Shows bits := by
  cases counted : (ofBits bits).toUInt64? with
  | error fault =>
    rw [toUInt64?_of_complete (complete_ofBits bits)] at counted
    cases counted
  | ok word? =>
    rw [valueText, counted]
    cases word? with
    | none =>
      obtain ⟨text, written, read⟩ := parse?_sizedText positive small
      exact ⟨text, _, written, read, .sized⟩
    | some word =>
      obtain ⟨_, _, known, _⟩ := toUInt64?_some counted
      have same := toNat_of_counted counted
      rw [readable_ofBits] at known same
      refine ⟨_, _, rfl, ?_, .counted known same⟩
      refine Literal.parse?_of_read? ?_ ?_
      · simp
      · rw [Nat.toString_eq_repr, Nat.toList_repr, Literal.read?_decimal word.toNat_lt,
          UInt64.ofNat_toNat]

end LogicVector

/-! ## Driving -/

namespace Expression

/-- An initializer that has a value of no more than the target's width fits it. -/
theorem fit_of_fold {initializer : Expression} {value : LogicVector} {width : Nat}
    (folded : initializer.fold (some width) = .ok value) (complete : value.Complete)
    (narrow : value.width ≤ width) (site : Site) :
    initializer.fit width site = .ok (.ofBits (LogicVector.padded width value.readable)) := by
  rw [fit, folded]
  simp only [Attempt.mapReason, bind, Except.bind, if_neg (Nat.not_lt.mpr narrow),
    LogicVector.extend_of_complete complete narrow]
  rfl

/-- A literal that stands for bits gives them at their width. -/
theorem fit_of_shows {literal : Literal} {bits : List Logic} (positive : 0 < bits.length)
    (shown : literal.Shows bits) (site : Site) :
    (Expression.literal literal).fit bits.length site = .ok (.ofBits bits) := by
  cases shown with
  | @counted word known same =>
    have small : word.toNat < 2 ^ bits.length := same ▸ LogicVector.number_lt known
    have narrow := minimalWidth_le small positive
    have digits := LogicVector.readable_ofBits
      (LogicVector.binary word.toNat (minimalWidth word.toNat))
    have folded : (literal (.unsized word)).fold (some bits.length) =
        .ok (.ofUInt64 word (minimalWidth word.toNat)) := by rw [fold]; rfl
    rw [fit_of_fold folded (LogicVector.complete_ofUInt64 _ _)
      ((length_binary _ _).trans_le narrow), LogicVector.ofUInt64, digits]
    -- Both lists have one length, all of them are known, and they are digits of one number.
    refine congrArg (fun bits => Except.ok (LogicVector.ofBits bits)) ?_
    refine LogicVector.eq_of_number ?_ known ?_ ?_
    · rw [known_padded, LogicVector.known_binary]
    · rw [length_padded_eq_max, length_binary, Nat.max_eq_left narrow]
    · rw [number_padded, LogicVector.number_binary,
        Nat.mod_eq_of_lt (lt_two_pow_minimalWidth _), same]
  | sized =>
    have folded : (literal (.sized (.ofBits bits))).fold (some bits.length) =
        .ok (.ofBits bits) := by rw [fold]; rfl
    rw [fit_of_fold folded (LogicVector.complete_ofBits bits) le_rfl, LogicVector.readable_ofBits,
      padded_of_le le_rfl]

end Expression

/-- What is written of a packed vector is read back: its value text is a literal that drives an
output of its width with the vector, and its sized text is a literal of the vector itself. -/
theorem LogicVector.written_reads_back {v : LogicVector} (packed : v.Packed)
    (positive : 0 < v.width) {signal : Signal} (same : signal.type.width.toNat = v.width)
    (target : SignalId) (site : Site) :
    (∃ text literal, v.valueText = .ok text ∧ Literal.parse? text = some literal ∧
        signal.drive? target (.declared (.literal literal)) site =
          .ok (some ⟨target, v, site.span⟩)) ∧
      ∃ text, v.sizedText = .ok text ∧ Literal.parse? text = some (.sized v) := by
  obtain ⟨bits, rfl⟩ := packed_iff_tidy.mp packed
  have small : bits.length < UInt32.size := by
    rw [width_ofBits] at same
    exact same ▸ signal.type.width.toNat_lt
  refine ⟨?_, parse?_sizedText positive small⟩
  obtain ⟨text, literal, written, read, shown⟩ := parse?_valueText positive small
  refine ⟨text, literal, written, read, ?_⟩
  have fitted := Expression.fit_of_shows positive shown site
  rw [Signal.drive?, same, width_ofBits, fitted]
  rfl

/-! ## A vector of two words -/

namespace Sample

/-- Thirty-two ones below an unknown bit. -/
def unknownTop : LogicVector := .ofBits (List.replicate 32 .one ++ [.x])

def wideOutput : Signal := .output ⟨0⟩ ⟨33, false⟩ .dummy

end Sample

/-- The unknown bit is in the second word, and it is read back in its place. -/
theorem LogicVector.written_reads_back_unknownTop :
    (∃ text literal, Sample.unknownTop.valueText = .ok text ∧
        Literal.parse? text = some literal ∧
        Sample.wideOutput.drive? ⟨0⟩ (.declared (.literal literal)) ⟨"B", "y", .dummy⟩ =
          .ok (some ⟨⟨0⟩, Sample.unknownTop, .dummy⟩)) ∧
      ∃ text, Sample.unknownTop.sizedText = .ok text ∧
        Literal.parse? text = some (.sized Sample.unknownTop) :=
  LogicVector.written_reads_back (LogicVector.packed_ofBits _) (by decide) (by decide) ⟨0⟩
    ⟨"B", "y", .dummy⟩

end HdlPorts
