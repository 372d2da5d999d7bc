import HdlPorts.Json.Reader
import HdlPorts.Proofs.ValueTexts

/-! A document is read back from its text.

A text holds no blanks, and every value in it is followed by a mark that ends it or by nothing. So
reading stops where the value does, whatever comes next, and what was read of a part is what was
written there. Strings may hold any characters: those that cannot stand for themselves are escaped,
and an escape is read as the character it was written for.
-/

set_option autoImplicit false

namespace HdlPorts.Json

/-! ## Strings -/

theorem digit?_digitChar {value : Nat} (small : value < 16) :
    Hexadecimal.digit? (Nat.digitChar value) = some value := by
  have each : ∀ value < 16, Hexadecimal.digit? (Nat.digitChar value) = some value := by decide
  exact each value small

theorem char?_toNat (char : Char) : Hexadecimal.char? char.toNat = some char := by
  have valid : char.toNat.isValidChar := char.valid
  rw [Hexadecimal.char?, dif_pos valid]
  rfl

/-- The piece of a string stands for the character: as itself, or by number if it is a control
character. -/
inductive Piece.Stands : Piece → Char → Prop where
  | char (value : Char) : Stands (.char value) value
  | unit {value : Char} : value.toNat < 32 → Stands (.unit value.toNat) value

/-- One more piece in front of those that were read. -/
def ahead (piece : Piece) (read : List Piece × List Char) : List Piece × List Char :=
  (piece :: read.1, read.2)

theorem pieces?_letter {letter char : Char} (escaped : unescape? letter = some char)
    (rest : List Char) :
    pieces? ('\x5c' :: letter :: rest) = (pieces? rest).map (ahead (.char char)) := by
  have other : letter ≠ 'u' := by
    rintro rfl
    cases escaped
  rw [pieces?, escaped]
  · cases pieces? rest <;> rfl
  · intro a b c d more same
    exact absurd same other

theorem pieces?_unit {value : Nat} (small : value < 32) (rest : List Char) :
    pieces? ('\x5c' :: 'u' :: '0' :: '0' :: Nat.digitChar (value / 16) ::
      Nat.digitChar (value % 16) :: rest) = (pieces? rest).map (ahead (.unit value)) := by
  have number : Hexadecimal.number?
      ['0', '0', Nat.digitChar (value / 16), Nat.digitChar (value % 16)] = some value := by
    have zero : Hexadecimal.digit? '0' = some 0 := by decide
    have high := digit?_digitChar (show value / 16 < 16 by omega)
    have low := digit?_digitChar (show value % 16 < 16 by omega)
    simp only [Hexadecimal.number?, List.mapM_cons, List.mapM_nil, zero, high, low, bind,
      Option.bind, pure, Option.map_some, List.foldl_cons, List.foldl_nil, Option.some.injEq]
    omega
  rw [pieces?, number]
  cases pieces? rest <;> rfl

theorem pieces?_plain {char : Char} (quote : char ≠ '\x22') (slash : char ≠ '\x5c')
    (printable : ¬ char.toNat < 32) (rest : List Char) :
    pieces? (char :: rest) = (pieces? rest).map (ahead (.char char)) := by
  have allowed : (decide (char.toNat < 32) || char == '\x5c') = false := by
    simp [printable, slash]
  rw [pieces?]
  · simp only [allowed, Bool.false_eq_true, if_false]
    cases pieces? rest <;> rfl
  · exact quote
  · intros
    contradiction
  · intros
    contradiction

theorem pieces?_escape (char : Char) (rest : List Char) :
    ∃ piece, Piece.Stands piece char ∧
      pieces? (escape char ++ rest) = (pieces? rest).map (ahead piece) := by
  -- Characters that have a letter, then those that are given by number, then all others.
  unfold escape
  iterate 7
    split
    · next same =>
      subst same
      exact ⟨_, .char _, pieces?_letter rfl rest⟩
  split
  · next control => exact ⟨_, .unit control, pieces?_unit control rest⟩
  · next quote slash _ _ _ _ _ printable =>
    exact ⟨_, .char _, pieces?_plain quote slash printable rest⟩

theorem pieces?_flatMap (chars rest : List Char) :
    ∃ pieces, List.Forall₂ Piece.Stands pieces chars ∧
      pieces? (chars.flatMap escape ++ '\x22' :: rest) = some (pieces, rest) := by
  induction chars with
  | nil => exact ⟨[], .nil, rfl⟩
  | cons char chars ih =>
    obtain ⟨pieces, stand, read⟩ := ih
    obtain ⟨piece, own, escaped⟩ := pieces?_escape char (chars.flatMap escape ++ '\x22' :: rest)
    refine ⟨piece :: pieces, .cons own stand, ?_⟩
    rw [List.flatMap_cons, List.append_assoc, escaped, read]
    rfl

/-- Sixteen bits that are no upper half of a surrogate pair are a character by themselves. -/
theorem join?_unit {value : Nat} (single : isHighSurrogate value = false) (pieces : List Piece) :
    join? (.unit value :: pieces) = (do
      let char ← Hexadecimal.char? value
      let chars ← join? pieces
      return char :: chars) := by
  cases pieces with
  | nil => rfl
  | cons next rest =>
    cases next with
    | char _ => rfl
    | unit _ =>
      rw [join?, single]
      rfl

theorem join?_cons {piece : Piece} {char : Char} (stands : Piece.Stands piece char)
    (pieces : List Piece) : join? (piece :: pieces) = (join? pieces).map (char :: ·) := by
  cases stands with
  | char => rfl
  | unit control =>
    have single : isHighSurrogate char.toNat = false := by
      simp only [isHighSurrogate, Bool.and_eq_false_iff, decide_eq_false_iff_not]
      omega
    rw [join?_unit single, char?_toNat]
    cases join? pieces <;> rfl

theorem join?_of_stands {pieces : List Piece} {chars : List Char}
    (stand : List.Forall₂ Piece.Stands pieces chars) : join? pieces = some chars := by
  induction stand with
  | nil => rfl
  | cons own _ ih => rw [join?_cons own, ih, Option.map_some]

/-- A string is read up to its closing quote. -/
theorem string?_quoted (value : Option String) :
    ∃ body, quoted value = '\x22' :: body ∧
      ∀ rest, string? (body ++ rest) = some (value, rest) := by
  cases value with
  | none => exact ⟨_, rfl, fun rest => rfl⟩
  | some text =>
    refine ⟨text.toList.flatMap escape ++ ['\x22'], rfl, fun rest => ?_⟩
    obtain ⟨pieces, stand, read⟩ := pieces?_flatMap text.toList rest
    rw [string?, List.append_assoc, List.singleton_append, read]
    simp [join?_of_stands stand, String.ofList_toList]

/-! ## Numbers -/

/-- What may follow a value: nothing, or a mark that ends it. -/
def Ends (rest : List Char) : Prop :=
  ∀ mark ∈ rest.head?, mark = ',' ∨ mark = ']' ∨ mark = '\x7d'

theorem ends_cons {mark : Char} (ends : mark = ',' ∨ mark = ']' ∨ mark = '\x7d')
    (rest : List Char) : Ends (mark :: rest) := by
  rintro _ ⟨⟩
  exact ends

theorem digits?_append {digits rest : List Char} (all : digits.all Char.isDigit = true)
    (nonempty : digits ≠ []) (ends : Ends rest) : digits? (digits ++ rest) = some (digits, rest) := by
  have each : ∀ char ∈ digits, char.isDigit = true := List.all_eq_true.mp all
  have stops : rest.takeWhile Char.isDigit = [] ∧ rest.dropWhile Char.isDigit = rest := by
    cases rest with
    | nil => exact ⟨rfl, rfl⟩
    | cons mark rest =>
      have other : ¬ mark.isDigit = true := by
        rcases ends mark rfl with rfl | rfl | rfl <;> decide
      exact ⟨List.takeWhile_cons_of_neg other, List.dropWhile_cons_of_neg other⟩
  rw [digits?, List.takeWhile_append_of_pos each, List.dropWhile_append_of_pos each, stops.1,
    stops.2, List.append_nil]
  cases digits with
  | nil => exact absurd rfl nonempty
  | cons => rfl

/-- A number is written without a zero in front. -/
theorem head?_toDigits (number : Nat) (positive : 0 < number) :
    (Nat.toDigits 10 number).head? ≠ some '0' := by
  induction number using Nat.strongRecOn with
  | _ number ih =>
    rw [Nat.toDigits_eq_if (by decide)]
    split
    · next small =>
      have each : ∀ digit < 10, 0 < digit → [Nat.digitChar digit].head? ≠ some '0' := by decide
      exact each number small positive
    · next large =>
      rw [List.head?_append_of_ne_nil _ Nat.toDigits_ne_nil]
      exact ih (number / 10) (by omega) (by omega)

theorem whole?_toDigits (number : Nat) {rest : List Char} (ends : Ends rest) :
    whole? (Nat.toDigits 10 number ++ rest) = some (Nat.toDigits 10 number, rest) := by
  rw [whole?, digits?_append (toDigits_all number) Nat.toDigits_ne_nil ends]
  split
  · next zero =>
    injection zero with same
    injection same with digits _
    rcases Nat.eq_zero_or_pos number with rfl | positive
    · cases digits
    · exact absurd (by rw [digits]; rfl) (head?_toDigits number positive)
  · rfl

theorem fraction?_of_ends {rest : List Char} (ends : Ends rest) :
    fraction? rest = some (false, rest) := by
  unfold fraction?
  split
  · exact absurd (ends '.' rfl) (by decide)
  · rfl

theorem exponent?_of_ends {rest : List Char} (ends : Ends rest) :
    exponent? rest = some (false, rest) := by
  unfold exponent?
  split
  · exact absurd (ends 'e' rfl) (by decide)
  · exact absurd (ends 'E' rfl) (by decide)
  · rfl

theorem unsigned?_toDigits (number : Nat) {rest : List Char} (ends : Ends rest) :
    unsigned? (Nat.toDigits 10 number ++ rest) = some (some number, rest) := by
  simp [unsigned?, whole?_toDigits number ends, fraction?_of_ends ends, exponent?_of_ends ends,
    Nat.ofDigitChars_ten_toDigits]

theorem number?_toDigits (value : Nat) {rest : List Char} (ends : Ends rest) :
    number? (Nat.toDigits 10 value ++ rest) = some (number (some value), rest) := by
  have read := unsigned?_toDigits value ends
  unfold number?
  split
  · next signed =>
    have first : (Nat.toDigits 10 value).head? = some '-' := by
      rw [← List.head?_append_of_ne_nil _ Nat.toDigits_ne_nil, signed, List.head?_cons]
    have digit := List.all_eq_true.mp (toDigits_all value) '-' (List.mem_of_mem_head? first)
    exact absurd digit (by decide)
  · rw [read]
    rfl

/-- The characters that a number begins with. -/
def beginsNumber (char : Char) : Bool := char.isDigit || char == '-'

theorem number?_chars (value : Option Nat) {rest : List Char} (ends : Ends rest) :
    number? ((number value).chars ++ rest) = some (number value, rest) := by
  cases value with
  | some value =>
    rw [chars]
    exact number?_toDigits value ends
  | none =>
    have one : Nat.toDigits 10 1 = ['1'] := by decide
    have read := unsigned?_toDigits 1 ends
    rw [one, List.singleton_append] at read
    rw [chars, List.cons_append, List.singleton_append, number?, read]
    rfl

theorem number_chars_head (value : Option Nat) :
    ∃ head tail, (number value).chars = head :: tail ∧ beginsNumber head = true := by
  cases value with
  | none => exact ⟨'-', ['1'], by rw [chars], rfl⟩
  | some value =>
    cases digits : Nat.toDigits 10 value with
    | nil => exact absurd digits Nat.toDigits_ne_nil
    | cons head tail =>
      have all := toDigits_all value
      rw [digits, List.all_cons, Bool.and_eq_true] at all
      exact ⟨head, tail, by rw [chars, digits], by rw [beginsNumber, all.1, Bool.true_or]⟩

/-! ## Values -/

theorem skipBlanks_cons {head : Char} (solid : isBlank head = false) (tail : List Char) :
    skipBlanks (head :: tail) = head :: tail :=
  List.dropWhile_cons_of_neg (by rw [solid]; decide)

theorem skipBlanks_of_ends {rest : List Char} (ends : Ends rest) : skipBlanks rest = rest := by
  cases rest with
  | nil => rfl
  | cons mark rest =>
    refine skipBlanks_cons ?_ rest
    rcases ends mark rfl with rfl | rfl | rfl <;> decide

theorem beginsNumber_ne {head other : Char} (begins : beginsNumber head = true)
    (not : beginsNumber other = false) : head ≠ other := by
  rintro rfl
  rw [begins] at not
  cases not

/-- The text of a value begins with no blank, and with no mark that ends a list. -/
theorem chars_head (json : Json) :
    ∃ head tail, json.chars = head :: tail ∧ isBlank head = false ∧ head ≠ ']' := by
  cases json with
  | null => exact ⟨_, _, by rw [chars], by decide, by decide⟩
  | bool value => cases value <;> exact ⟨_, _, by rw [chars], by decide, by decide⟩
  | number value =>
    obtain ⟨head, tail, same, begins⟩ := number_chars_head value
    refine ⟨head, tail, same, ?_, beginsNumber_ne begins (by decide)⟩
    simp only [isBlank, Bool.or_eq_false_iff, beq_eq_false_iff_ne]
    refine ⟨⟨⟨?_, ?_⟩, ?_⟩, ?_⟩ <;> exact beginsNumber_ne begins (by decide)
  | string value =>
    obtain ⟨body, same, _⟩ := string?_quoted value
    exact ⟨_, body, by rw [chars, same], by decide, by decide⟩
  | array items => exact ⟨_, _, by rw [chars, List.cons_append], by decide, by decide⟩
  | object members => exact ⟨_, _, by rw [chars, List.cons_append], by decide, by decide⟩

theorem skipBlanks_chars (json : Json) (rest : List Char) :
    skipBlanks (json.chars ++ rest) = json.chars ++ rest := by
  obtain ⟨head, tail, same, solid, _⟩ := chars_head json
  rw [same, List.cons_append, skipBlanks_cons solid]

theorem value?_number {steps : Nat} (value : Option Nat) {rest : List Char} (ends : Ends rest) :
    value? (steps + 1) ((number value).chars ++ rest) = some (number value, rest) := by
  have read := number?_chars value ends
  obtain ⟨head, tail, same, begins⟩ := number_chars_head value
  rw [value?, skipBlanks_chars]
  rw [same, List.cons_append] at read ⊢
  split
  case h_7 => exact read
  -- All other values begin with a character that no number begins with.
  all_goals
    next same => exact absurd (List.cons.inj same).1 (beginsNumber_ne begins (by decide))

theorem value?_string {steps : Nat} (value : Option String) (rest : List Char) :
    value? (steps + 1) ((string value).chars ++ rest) = some (string value, rest) := by
  obtain ⟨body, same, read⟩ := string?_quoted value
  rw [value?, skipBlanks_chars, chars, same, List.cons_append]
  simp only [read, bind, Option.bind, pure]

/-- The text of some items begins as the first of them does. -/
theorem itemChars_head {items : List Json} (nonempty : items ≠ []) :
    ∃ head tail, itemChars items = head :: tail ∧ isBlank head = false ∧ head ≠ ']' := by
  match items with
  | [] => exact absurd rfl nonempty
  | [item] =>
    rw [itemChars]
    exact chars_head item
  | item :: next :: more =>
    obtain ⟨head, tail, same, marks⟩ := chars_head item
    refine ⟨head, tail ++ ',' :: itemChars (next :: more), ?_, marks⟩
    rw [itemChars, same, List.cons_append]
    nofun

/-- The text of some members begins with the quote of the first key. -/
theorem memberChars_head {members : List (Option String × Json)} (nonempty : members ≠ []) :
    ∃ tail, memberChars members = '\x22' :: tail := by
  match members with
  | [] => exact absurd rfl nonempty
  | [(key, value)] =>
    obtain ⟨body, same, _⟩ := string?_quoted key
    exact ⟨_, by rw [memberChars, same, List.cons_append]⟩
  | (key, value) :: next :: more =>
    obtain ⟨body, same, _⟩ := string?_quoted key
    refine ⟨body ++ ':' :: chars value ++ ',' :: memberChars (next :: more), ?_⟩
    rw [memberChars, same]
    · rfl
    · nofun

/-- What is read after a member: the end of the object, or a comma and the other members. -/
def afterMember? (steps : Nat) (member : Option String × Json) :
    List Char → Option (List (Option String × Json) × List Char)
  | '\x7d' :: rest => some ([member], rest)
  | ',' :: rest => (members? steps rest).map fun (members, rest) => (member :: members, rest)
  | _ => none

/-- Documents, the items of arrays and the members of objects are read back in a number of steps, if
that is enough for the length of their texts. Items and members are followed by a closing mark. -/
structure ReadsBack (steps : Nat) : Prop where
  value (json : Json) {rest : List Char} (enough : 2 * json.chars.length ≤ steps)
    (ends : Ends rest) : value? steps (json.chars ++ rest) = some (json, rest)
  items {items : List Json} (rest : List Char) (nonempty : items ≠ [])
    (enough : 2 * (itemChars items).length + 1 ≤ steps) :
    items? steps (itemChars items ++ ']' :: rest) = some (items, rest)
  members {members : List (Option String × Json)} (rest : List Char) (nonempty : members ≠ [])
    (enough : 2 * (memberChars members).length + 1 ≤ steps) :
    members? steps (memberChars members ++ '\x7d' :: rest) = some (members, rest)

namespace ReadsBack

variable {steps : Nat}

theorem array {items : List Json} (reads : ReadsBack steps) (rest : List Char)
    (enough : 2 * (array items).chars.length ≤ steps + 1) :
    value? (steps + 1) ((Json.array items).chars ++ rest) = some (.array items, rest) := by
  rw [value?, skipBlanks_chars, chars, List.cons_append, List.cons_append, List.append_assoc,
    List.singleton_append]
  by_cases empty : items = []
  · subst empty
    rfl
  · obtain ⟨head, tail, same, solid, other⟩ := itemChars_head empty
    have length : 2 * (itemChars items).length + 1 ≤ steps := by
      simp only [chars, List.length_append, List.length_cons, List.length_nil] at enough
      omega
    have read := reads.items rest empty length
    rw [same, List.cons_append] at read ⊢
    simp only [skipBlanks_cons solid]
    split
    · next closed => exact absurd (List.cons.inj closed).1 other
    · rw [read]
      rfl

theorem object {members : List (Option String × Json)} (reads : ReadsBack steps)
    (rest : List Char) (enough : 2 * (object members).chars.length ≤ steps + 1) :
    value? (steps + 1) ((Json.object members).chars ++ rest) = some (.object members, rest) := by
  rw [value?, skipBlanks_chars, chars, List.cons_append, List.cons_append, List.append_assoc,
    List.singleton_append]
  by_cases empty : members = []
  · subst empty
    rfl
  · obtain ⟨tail, same⟩ := memberChars_head empty
    have length : 2 * (memberChars members).length + 1 ≤ steps := by
      simp only [chars, List.length_append, List.length_cons, List.length_nil] at enough
      omega
    have read := reads.members rest empty length
    rw [same, List.cons_append] at read ⊢
    simp only [skipBlanks_cons (show isBlank '\x22' = false by decide)]
    split
    · next closed => exact absurd (List.cons.inj closed).1 (by decide)
    · rw [read]
      rfl

/-- A member is read as its key, the mark between the two, and its value. -/
theorem member (reads : ReadsBack steps) (key : Option String) (value : Json)
    {rest : List Char} (enough : 2 * value.chars.length ≤ steps) (ends : Ends rest) :
    members? (steps + 1) (quoted key ++ ':' :: (value.chars ++ rest)) =
      afterMember? steps (key, value) rest := by
  obtain ⟨body, same, read⟩ := string?_quoted key
  rw [members?, same, List.cons_append, skipBlanks_cons (by decide)]
  simp only [read, bind, Option.bind, skipBlanks_cons (show isBlank ':' = false by decide),
    reads.value value enough ends, skipBlanks_of_ends ends]
  split
  · rfl
  · rw [afterMember?]
    cases members? steps _ <;> rfl
  · rw [afterMember?] <;> assumption

theorem succ (reads : ReadsBack steps) : ReadsBack (steps + 1) where
  value json rest enough ends := by
    cases json with
    | null =>
      rw [value?, skipBlanks_chars, chars]
      rfl
    | bool value =>
      rw [value?, skipBlanks_chars]
      cases value <;> rw [chars] <;> rfl
    | number value => exact value?_number value ends
    | string value => exact value?_string value rest
    | array items => exact reads.array rest enough
    | object members => exact reads.object rest enough
  items {items} rest nonempty enough := by
    match items with
    | [] => exact absurd rfl nonempty
    | [item] =>
      rw [itemChars] at enough ⊢
      rw [items?, reads.value item (by omega) (ends_cons (by decide) rest)]
      rfl
    | item :: next :: more =>
      rw [itemChars] at enough ⊢
      rw [List.length_append, List.length_cons] at enough
      have others := reads.items rest (List.cons_ne_nil next more) (by omega)
      rw [List.append_assoc, List.cons_append, items?,
        reads.value item (by omega) (ends_cons (by decide) _)]
      change (items? steps (itemChars (next :: more) ++ ']' :: rest)).bind _ = _
      rw [others]
      rfl
      all_goals nofun
  members {members} rest nonempty enough := by
    match members with
    | [] => exact absurd rfl nonempty
    | [(key, value)] =>
      rw [memberChars] at enough ⊢
      rw [List.length_append, List.length_cons] at enough
      rw [List.append_assoc, List.cons_append,
        reads.member key value (by omega) (ends_cons (by decide) rest)]
      rfl
    | (key, value) :: next :: more =>
      rw [memberChars] at enough ⊢
      rw [List.length_append, List.length_append, List.length_cons, List.length_cons] at enough
      have others := reads.members rest (List.cons_ne_nil next more) (by omega)
      rw [List.append_assoc, List.append_assoc, List.cons_append, List.cons_append,
        reads.member key value (by omega) (ends_cons (by decide) _), afterMember?, others,
        Option.map_some]
      all_goals nofun

end ReadsBack

/-- Whatever the bound on the steps, what is short enough for it is read back. -/
theorem readsBack (steps : Nat) : ReadsBack steps := by
  induction steps with
  | zero =>
    refine ⟨fun json _ enough _ => ?_, nofun, nofun⟩
    obtain ⟨head, tail, same, _⟩ := chars_head json
    rw [same, List.length_cons] at enough
    omega
  | succ steps ih => exact ih.succ

/-- Every document is read back from its text. -/
theorem parse?_compact (json : Json) : parse? json.compact = some json := by
  have ends : Ends [] := nofun
  have read := (readsBack (2 * json.chars.length + 1)).value json (Nat.le_succ _) ends
  rw [List.append_nil] at read
  rw [parse?, compact, String.toList_ofList]
  simp only [read, bind, Option.bind, List.all_nil, if_true]

end HdlPorts.Json
