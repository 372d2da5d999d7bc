import HdlPorts.Proofs.LiteralTexts
import HdlPorts.Proofs.Traversals

/-! The forms that a literal is written in.

Underscores apart, a literal is a plain number, a quote and a fill, or a based literal: an optional
size, a quote, an optional mark of a signed literal, a letter for the base, and digits. What is read
has one of these forms. Only numbers may have more in front than the form says, namely a plus sign:
the size, a plain number, and the digits of a decimal literal. A text that is read has the form to
the letter exactly if there is no plus sign in it.
-/

set_option autoImplicit false

namespace HdlPorts.Literal

open LogicVector (quote)

/-! ## Forms -/

/-- The characters of a text that count. -/
def written (text : String) : List Char := text.toList.filter (· != '_')

/-- Decimal digits, at least one. -/
def Decimal (chars : List Char) : Prop := chars ≠ [] ∧ chars.all Char.isDigit = true

instance (chars : List Char) : Decidable (Decimal chars) := inferInstanceAs (Decidable (_ ∧ _))

/-- Decimal digits with or without a plus sign. -/
def Signed (chars : List Char) : Prop :=
  ∃ digits, Decimal digits ∧ (chars = digits ∨ chars = '+' :: digits)

/-- The digits that stand for bits that are not known. -/
def unknown? : Char → Option Logic
  | 'x' | 'X' => some .x
  | 'z' | 'Z' | '?' => some .z
  | _ => none

/-- The other digits, each in the place of its value. -/
def numerals : List Char :=
  ['0', '1', '2', '3', '4', '5', '6', '7', '8', '9', 'a', 'b', 'c', 'd', 'e', 'f']

/-- One bit of what a digit stands for, counted from the lowest. -/
def digitBit (digit : Char) (place : Nat) : Logic :=
  (unknown? digit).getD (.ofBool ((numerals.idxOf digit.toLower).testBit place))

/-- The bases whose digits stand for so many bits each. -/
inductive Base where
  | binary
  | octal
  | hexadecimal

namespace Base

def letters : Base → List Char
  | binary => ['b', 'B']
  | octal => ['o', 'O']
  | hexadecimal => ['h', 'H']

/-- How many bits a digit stands for. -/
def places : Base → Nat
  | binary => 1
  | octal => 3
  | hexadecimal => 4

/-- The base has the digit. -/
def Digit (base : Base) (char : Char) : Prop :=
  char.toLower ∈ numerals.take (2 ^ base.places) ∨ (unknown? char).isSome = true

instance (base : Base) (char : Char) : Decidable (base.Digit char) :=
  inferInstanceAs (Decidable (_ ∨ _))

end Base

def decimalLetters : List Char := ['d', 'D']

/-- The marks of a signed literal, and none. -/
def marks : List (List Char) := [[], ['s'], ['S']]

def fills : List Char := ['0', '1', 'x', 'X', 'z', 'Z', '?']

/-- The forms of a literal, with a given idea of what a number may look like. -/
inductive Form (Number : List Char → Prop) : List Char → Prop where
  | plain {chars : List Char} : Number chars → Form Number chars
  | fill {char : Char} : char ∈ fills → Form Number [quote, char]
  | based {size mark digits : List Char} {letter : Char} (base : Base) :
      size = [] ∨ Number size → mark ∈ marks → letter ∈ base.letters → digits ≠ [] →
      (∀ digit ∈ digits, base.Digit digit) →
      Form Number (size ++ quote :: (mark ++ letter :: digits))
  | decimal {size mark digits : List Char} {letter : Char} :
      size = [] ∨ Number size → mark ∈ marks → letter ∈ decimalLetters → Number digits →
      Form Number (size ++ quote :: (mark ++ letter :: digits))

/-! ## Characters -/

/-- What holds of the first 128 characters and of all others holds of every character. -/
theorem of_ascii {property : Char → Prop} (low : ∀ number < 128, property (Char.ofNat number))
    (high : ∀ char : Char, 128 ≤ char.toNat → property char) (char : Char) : property char := by
  by_cases small : char.toNat < 128
  · have own := low char.toNat small
    rwa [Char.ofNat_toNat] at own
  · exact high char (Nat.le_of_not_lt small)

theorem fill_of_ofChar? {char : Char} {bit : Logic} (read : Logic.ofChar? char = some bit) :
    char ∈ fills := by
  unfold Logic.ofChar? at read
  split at read
  · decide
  · decide
  · decide
  · decide
  · decide
  · decide
  · decide
  · cases read

section Others

variable {char : Char} (high : 128 ≤ char.toNat)

include high

theorem not_le_of_high {other : Char} (low : other.toNat < 128) : ¬ char ≤ other := by
  intro le
  have : char.toNat ≤ other.toNat := le
  omega

theorem unknown?_of_high : unknown? char = none := by
  unfold unknown?
  split
  · exact absurd high (by decide)
  · exact absurd high (by decide)
  · exact absurd high (by decide)
  · exact absurd high (by decide)
  · exact absurd high (by decide)
  · rfl

theorem not_digit_of_high (base : Base) : ¬ base.Digit char := by
  have same : char.toLower = char :=
    dif_neg fun upper => not_le_of_high high (show 'Z'.toNat < 128 by decide) upper.2
  rintro (listed | unknown)
  · rw [same] at listed
    have low : ∀ numeral ∈ numerals, numeral.toNat < 128 := by simp [numerals]
    have := low char (List.mem_of_mem_take listed)
    omega
  · rw [unknown?_of_high high] at unknown
    cases unknown

theorem digitBits?_of_high (count : Nat) : digitBits? count char = none := by
  have bit : Logic.ofChar? char = none := by
    refine Option.eq_none_iff_forall_ne_some.mpr fun bit read => ?_
    have low : ∀ fill ∈ fills, fill.toNat < 128 := by simp [fills]
    exact absurd (low char (fill_of_ofChar? read)) (Nat.not_lt.mpr high)
  have above (other : Char) (low : other.toNat < 128) := not_le_of_high high low
  have digit : Hexadecimal.digit? char = none := by simp [Hexadecimal.digit?, above]
  rw [digitBits?, bit, digit]

end Others

/-! ## Digits -/

/-- What a digit stands for, highest bit first. -/
def Base.bitsOf (base : Base) (digit : Char) : List Logic :=
  ((List.range base.places).map (digitBit digit)).reverse

theorem digitBits?_eq (base : Base) (char : Char) :
    digitBits? base.places char = if base.Digit char then some (base.bitsOf char) else none := by
  induction char using of_ascii with
  | low number small =>
    revert number
    cases base with
    | binary => decide
    | octal => decide
    | hexadecimal => decide
  | high char large => rw [digitBits?_of_high large, if_neg (not_digit_of_high large base)]

theorem digits_of_expand? {base : Base} {digits : List Char} {bits : List Logic}
    (expanded : expand? base.places digits = some bits) : ∀ digit ∈ digits, base.Digit digit := by
  obtain ⟨parts, done, _⟩ := Option.map_eq_some_iff.mp expanded
  intro digit member
  obtain ⟨part, _, own⟩ := exists_of_forall₂ (mapM_eq_some.mp done).flip member
  rw [digitBits?_eq] at own
  by_contra other
  rw [if_neg other] at own
  cases own

/-! ## Numbers -/

variable {chars : List Char} {limit number : Nat}

theorem signed_of_decimal? (read : decimal? limit chars = some number) : Signed chars := by
  have digits_of {digits : List Char} (checked : (if digits.isEmpty then none
      else if digits.all Char.isDigit then
        if Nat.ofDigitChars 10 digits 0 < limit then some (Nat.ofDigitChars 10 digits 0) else none
      else none) = some number) : Decimal digits := by
    split at checked
    · cases checked
    · next nonempty =>
      split at checked
      · next each => exact ⟨by simpa using nonempty, each⟩
      · cases checked
  by_cases plus : chars.head? = some '+'
  · obtain ⟨rest, rfl⟩ := List.head?_eq_some_iff.mp plus
    exact ⟨rest, digits_of read, .inr rfl⟩
  · rw [decimal?_unsigned plus] at read
    exact ⟨chars, digits_of read, .inl rfl⟩

theorem signed_of_size? {size : Option Nat} (read : size? chars = some size) :
    chars = [] ∨ Signed chars := by
  cases chars with
  | nil => exact .inl rfl
  | cons first rest =>
    rw [size?] at read
    · cases counted : decimal? UInt32.size (first :: rest) with
      | none =>
        rw [counted] at read
        cases read
      | some width => exact .inr (signed_of_decimal? counted)
    · simp

/-! ## Reading -/

theorem of_splitQuote? {before after : List Char}
    (split : splitQuote? chars = some (before, after)) : chars = before ++ quote :: after := by
  unfold splitQuote? at split
  cases rest : chars.dropWhile (· != quote) with
  | nil =>
    rw [rest] at split
    cases split
  | cons mark others =>
    rw [rest] at split
    cases split
    have stops := List.head?_dropWhile_not (· != quote) chars
    rw [rest] at stops
    have own : mark = quote := by simpa using stops
    have whole := List.takeWhile_append_dropWhile (p := (· != quote)) (l := chars)
    rw [rest, own] at whole
    exact whole.symm

/-- At most one mark is dropped. -/
theorem of_dropSigned (chars : List Char) : ∃ mark ∈ marks, chars = mark ++ dropSigned chars := by
  unfold dropSigned
  split
  · exact ⟨['s'], by decide, rfl⟩
  · exact ⟨['S'], by decide, rfl⟩
  · exact ⟨[], by decide, rfl⟩

section Based

variable {size? : Option Nat} {before after mark digits : List Char} {letter : Char}
  {bits : LogicVector} (sized : before = [] ∨ Signed before) (listed : mark ∈ marks)

include sized listed

theorem form_of_expand? (base : Base) (own : letter ∈ base.letters)
    (nonempty : ¬ digits.isEmpty = true)
    (read : (expand? base.places digits >>= fit? size?) = some bits) :
    Form Signed (before ++ quote :: (mark ++ letter :: digits)) := by
  obtain ⟨expanded, found, _⟩ := Option.bind_eq_some_iff.mp read
  exact .based base sized listed own (by simpa using nonempty) (digits_of_expand? found)

theorem form_of_number (own : letter ∈ decimalLetters)
    (read : (decimal? UInt64.size digits >>= fitNumber? size?) = some bits) :
    Form Signed (before ++ quote :: (mark ++ letter :: digits)) := by
  obtain ⟨number, found, _⟩ := Option.bind_eq_some_iff.mp read
  exact .decimal sized listed own (signed_of_decimal? found)

/-- What follows the mark has a letter that decides how the digits are read. -/
theorem form_of_based? (read : based? size? after = some bits) :
    Form Signed (before ++ quote :: (mark ++ after)) := by
  unfold based? at read
  split at read
  · cases read
  · split at read
    · cases read
    · next nonempty =>
      split at read
      · exact form_of_expand? sized listed .binary (by decide) nonempty read
      · exact form_of_expand? sized listed .binary (by decide) nonempty read
      · exact form_of_expand? sized listed .octal (by decide) nonempty read
      · exact form_of_expand? sized listed .octal (by decide) nonempty read
      · exact form_of_expand? sized listed .hexadecimal (by decide) nonempty read
      · exact form_of_expand? sized listed .hexadecimal (by decide) nonempty read
      · exact form_of_number sized listed (by decide) read
      · exact form_of_number sized listed (by decide) read
      · cases read

end Based

/-- What is read has one of the forms, with a plus sign allowed in front of its numbers. -/
theorem form_of_read? {literal : Literal} (read : read? chars = some literal) :
    Form Signed chars := by
  unfold read? at read
  split at read
  · obtain ⟨number, counted, _⟩ := Option.map_eq_some_iff.mp read
    exact .plain (signed_of_decimal? counted)
  · next char split =>
    obtain ⟨bit, known, _⟩ := Option.map_eq_some_iff.mp read
    rw [of_splitQuote? split]
    exact .fill (fill_of_ofChar? known)
  · next before after _ split =>
    obtain ⟨size, sized, read⟩ := Option.bind_eq_some_iff.mp read
    obtain ⟨bits, based, _⟩ := Option.bind_eq_some_iff.mp read
    obtain ⟨mark, listed, whole⟩ := of_dropSigned after
    rw [of_splitQuote? split, whole]
    exact form_of_based? (signed_of_size? sized) listed based

/-! ## Plus signs -/

theorem plus_not_mem_of_decimal (decimal : Decimal chars) : '+' ∉ chars :=
  fun member => absurd (List.all_eq_true.mp decimal.2 '+' member) (by decide)

theorem decimal_of_signed (signed : Signed chars) (plain : '+' ∉ chars) : Decimal chars := by
  obtain ⟨digits, decimal, rfl | rfl⟩ := signed
  · exact decimal
  · exact absurd List.mem_cons_self plain

/-- No form has a plus sign of its own. -/
theorem plus_not_mem_of_form (form : Form Decimal chars) : '+' ∉ chars := by
  have size {before : List Char} (sized : before = [] ∨ Decimal before) : '+' ∉ before := by
    rcases sized with rfl | decimal
    · exact List.not_mem_nil
    · exact plus_not_mem_of_decimal decimal
  have unmarked : ∀ mark ∈ marks, '+' ∉ mark := by decide
  have whole {before mark digits : List Char} {letter : Char}
      (sized : before = [] ∨ Decimal before) (marked : mark ∈ marks) (other : letter ≠ '+')
      (plain : '+' ∉ digits) : '+' ∉ before ++ quote :: (mark ++ letter :: digits) := by
    simp [size sized, unmarked mark marked, other.symm, plain, quote]
  cases form with
  | plain decimal => exact plus_not_mem_of_decimal decimal
  | @fill char own =>
    have others : ∀ char ∈ fills, '+' ≠ char := by simp [fills]
    simp [quote, others char own]
  | @based before mark digits letter base sized marked own _ each =>
    have others : ∀ letter ∈ base.letters, letter ≠ '+' := by
      cases base <;> simp [Base.letters]
    have plain : ¬ base.Digit '+' := by cases base <;> decide
    exact whole sized marked (others letter own) fun member => plain (each '+' member)
  | @decimal before mark digits letter sized marked own decimal =>
    have others : ∀ letter ∈ decimalLetters, letter ≠ '+' := by simp [decimalLetters]
    exact whole sized marked (others letter own) (plus_not_mem_of_decimal decimal)

/-- Without plus signs numbers are decimal digits. -/
theorem form_of_plain (form : Form Signed chars) (plain : '+' ∉ chars) : Form Decimal chars := by
  have size {before after : List Char} (sized : before = [] ∨ Signed before)
      (plain : '+' ∉ before ++ after) : before = [] ∨ Decimal before :=
    sized.imp_right fun signed =>
      decimal_of_signed signed fun member => plain (List.mem_append_left _ member)
  cases form with
  | plain signed => exact .plain (decimal_of_signed signed plain)
  | fill own => exact .fill own
  | based base sized marked own nonempty each =>
    exact .based base (size sized plain) marked own nonempty each
  | decimal sized marked own signed =>
    have rest := fun member => plain (List.mem_append_right _ (List.mem_cons_of_mem _
      (List.mem_append_right _ (List.mem_cons_of_mem _ member))))
    exact .decimal (size sized plain) marked own (decimal_of_signed signed rest)

/-- A text that is read has one of the forms of a literal, but a plus sign may stand in front of
each of its numbers. It has the form to the letter exactly if there is none. -/
theorem form_of_parse? {text : String} {literal : Literal}
    (accepted : parse? text = some literal) :
    Form Signed (written text) ∧ (Form Decimal (written text) ↔ '+' ∉ written text) := by
  have form : Form Signed (written text) := form_of_read? accepted
  exact ⟨form, plus_not_mem_of_form, form_of_plain form⟩

/-- Both the size and the digits have a plus sign here. -/
theorem form_of_parse?_signedSize :
    Form Signed ['+', '8', quote, 's', 'd', '+', '5'] ∧
      ¬ Form Decimal ['+', '8', quote, 's', 'd', '+', '5'] := by
  have accepted : parse? "+8\x27sd+5" = some (.sized (.ofUInt64 5 8)) := by decide
  obtain ⟨form, exactly⟩ := form_of_parse? accepted
  exact ⟨form, fun strict => exactly.mp strict (by decide)⟩

/-- A number with a plus sign is read, and it is no decimal number. -/
theorem plus_sign_accepted :
    parse? "+5" = some (.unsized 5) ∧ ¬ Form Decimal (written "+5") := by
  refine ⟨by decide, fun form => ?_⟩
  exact plus_not_mem_of_form form (by decide)

end HdlPorts.Literal
