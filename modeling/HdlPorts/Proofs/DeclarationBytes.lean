import HdlPorts.Declaration.Encoding

/-! The bytes of a declaration stand for no other declaration.

Nothing marks the end of an encoded value, but it can be found: where encoded values are followed by
whatever follows, equal bytes mean that the values are equal and that the same bytes follow. Numbers
have this property by their first byte. It carries over to lists, whose length is in front, to
choices, whose alternative is in front, and to parts one after another, and so up to declarations.
A digest is taken of these bytes, so it stands for one declaration as long as it tells bytes apart.
-/

set_option autoImplicit false

namespace HdlPorts

namespace Encoding

/-- An encoded value and what follows it can be told from the bytes of both. -/
def SelfDelimiting {α : Type} (encode : α → List UInt8) : Prop :=
  ∀ first second rest others, encode first ++ rest = encode second ++ others →
    first = second ∧ rest = others

namespace SelfDelimiting

variable {α β : Type} {encode : α → List UInt8} {encode' : β → List UInt8}

theorem eq_of_prefix (delimited : SelfDelimiting encode) {first second : α}
    (within : encode first <+: encode second) : first = second := by
  obtain ⟨rest, same⟩ := within
  exact (delimited first second rest [] (by rw [same, List.append_nil])).1

theorem comap (delimited : SelfDelimiting encode) {f : β → α}
    (injective : ∀ first second, f first = f second → first = second) :
    SelfDelimiting fun value => encode (f value) := by
  intro first second rest others same
  obtain ⟨same, follows⟩ := delimited _ _ _ _ same
  exact ⟨injective _ _ same, follows⟩

theorem pair (delimited : SelfDelimiting encode) (delimited' : SelfDelimiting encode') :
    SelfDelimiting fun both : α × β => encode both.1 ++ encode' both.2 := by
  rintro ⟨first, first'⟩ ⟨second, second'⟩ rest others same
  simp only [List.append_assoc] at same
  obtain ⟨rfl, tail⟩ := delimited _ _ _ _ same
  obtain ⟨rfl, follows⟩ := delimited' _ _ _ _ tail
  exact ⟨rfl, follows⟩

/-- A list of known length needs no mark between its items. -/
theorem items (delimited : SelfDelimiting encode) {first second : List α}
    {rest others : List UInt8} (length : first.length = second.length)
    (same : first.flatMap encode ++ rest = second.flatMap encode ++ others) :
    first = second ∧ rest = others := by
  induction first generalizing second with
  | nil =>
    cases List.length_eq_zero_iff.mp length.symm
    exact ⟨rfl, same⟩
  | cons item items ih =>
    cases second with
    | nil => cases length
    | cons item' items' =>
      simp only [List.flatMap_cons, List.append_assoc] at same
      obtain ⟨rfl, tail⟩ := delimited _ _ _ _ same
      obtain ⟨rfl, follows⟩ := ih (Nat.succ.inj length) tail
      exact ⟨rfl, follows⟩

end SelfDelimiting

/-! ## Numbers -/

theorem length_littleEndian (count number : Nat) : (littleEndian count number).length = count := by
  induction count generalizing number with
  | zero => rfl
  | succ count ih => rw [littleEndian, List.length_cons, ih]

theorem littleEndian_injective {count first second : Nat} (small : first < Nat.pow 256 count)
    (small' : second < Nat.pow 256 count)
    (same : littleEndian count first = littleEndian count second) : first = second := by
  induction count generalizing first second with
  | zero =>
    change first < 1 at small
    change second < 1 at small'
    omega
  | succ count ih =>
    change first < Nat.pow 256 count * 256 at small
    change second < Nat.pow 256 count * 256 at small'
    obtain ⟨low, high⟩ := List.cons.inj same
    have low : first % 256 = second % 256 := by simpa using congrArg UInt8.toNat low
    have high : first / 256 = second / 256 := ih (by omega) (by omega) high
    omega

/-- How many bytes follow a mark. -/
def following (mark : UInt8) : Nat := if mark = 251 then 2 else if mark = 252 then 4 else 8

/-- A word is one byte below the marks, or a mark and the bytes that it announces. -/
theorem word_cases {n : Nat} (small : n < UInt64.size) :
    (n < 251 ∧ word n = [UInt8.ofNat n]) ∨
      ∃ mark : UInt8, 251 ≤ mark.toNat ∧ mark.toNat < 254 ∧ n < Nat.pow 256 (following mark) ∧
        word n = mark :: littleEndian (following mark) n := by
  unfold word
  split
  · next below => exact .inl ⟨below, rfl⟩
  · split
    · next below => exact .inr ⟨251, by decide, by decide, below, rfl⟩
    · split
      · next below => exact .inr ⟨252, by decide, by decide, below, rfl⟩
      · exact .inr ⟨253, by decide, by decide, small, rfl⟩

theorem word_append {first second : Nat} {rest others : List UInt8} (small : first < UInt64.size)
    (small' : second < UInt64.size) (same : word first ++ rest = word second ++ others) :
    first = second ∧ rest = others := by
  have byte {n : Nat} (below : n < 251) : (UInt8.ofNat n).toNat = n :=
    UInt8.toNat_ofNat_of_lt' (Nat.lt_trans below (by decide))
  rcases word_cases small with ⟨below, one⟩ | ⟨mark, low, _, fits, one⟩ <;>
    rcases word_cases small' with ⟨below', other⟩ | ⟨mark', low', _, fits', other⟩ <;>
    rw [one, other] at same <;> obtain ⟨heads, tails⟩ := List.cons.inj same
  · have heads := congrArg UInt8.toNat heads
    rw [byte below, byte below'] at heads
    exact ⟨heads, tails⟩
  · -- One byte is below the marks.
    have heads := congrArg UInt8.toNat heads
    rw [byte below] at heads
    omega
  · have heads := congrArg UInt8.toNat heads
    rw [byte below'] at heads
    omega
  · subst heads
    obtain ⟨digits, follows⟩ := List.append_inj tails (by simp only [length_littleEndian])
    exact ⟨littleEndian_injective fits fits' digits, follows⟩

/-- No word starts with the mark for 2⁶⁴. -/
theorem word_ne_mark {n : Nat} {rest others : List UInt8} (small : n < UInt64.size) :
    word n ++ rest ≠ 254 :: others := by
  intro same
  rcases word_cases small with ⟨below, one⟩ | ⟨mark, _, high, _, one⟩ <;> rw [one] at same <;>
    have head := congrArg UInt8.toNat (List.cons.inj same).1
  · rw [UInt8.toNat_ofNat_of_lt' (Nat.lt_trans below (by decide))] at head
    exact absurd below (by rw [head]; decide)
  · exact absurd high (by rw [head]; decide)

theorem marks_append {count count' first second : Nat} {rest others : List UInt8}
    (small : first < UInt64.size) (small' : second < UInt64.size)
    (same : List.replicate count 254 ++ (word first ++ rest) =
      List.replicate count' 254 ++ (word second ++ others)) :
    count = count' ∧ first = second ∧ rest = others := by
  induction count generalizing count' with
  | zero =>
    cases count' with
    | zero => exact ⟨rfl, word_append small small' same⟩
    | succ count' => exact absurd same (word_ne_mark small)
  | succ count ih =>
    cases count' with
    | zero => exact absurd same.symm (word_ne_mark small')
    | succ count' =>
      obtain ⟨rfl, tail⟩ := ih (List.cons.inj same).2
      exact ⟨rfl, tail⟩

theorem number_delimited : SelfDelimiting number := by
  intro first second rest others same
  have small (n : Nat) : n % UInt64.size < UInt64.size := Nat.mod_lt _ (by decide)
  simp only [number, List.append_assoc] at same
  obtain ⟨quotient, remainder, follows⟩ := marks_append (small first) (small second) same
  refine ⟨?_, follows⟩
  rw [← Nat.div_add_mod first UInt64.size, quotient, remainder, Nat.div_add_mod]

/-! ## Parts of a declaration -/

theorem flag_delimited : SelfDelimiting flag := by
  intro first second rest others same
  obtain ⟨head, follows⟩ := List.cons.inj same
  refine ⟨?_, follows⟩
  cases first with
  | false =>
    cases second with
    | false => rfl
    | true => cases head
  | true =>
    cases second with
    | false => cases head
    | true => rfl

theorem optional_delimited {α : Type} {encode : α → List UInt8} (delimited : SelfDelimiting encode) :
    SelfDelimiting (optional encode) := by
  intro first second rest others same
  cases first with
  | none =>
    cases second with
    | none => exact ⟨rfl, (List.cons.inj same).2⟩
    | some value' => exact absurd (List.cons.inj same).1 (by decide)
  | some value =>
    cases second with
    | none => exact absurd (List.cons.inj same).1 (by decide)
    | some value' =>
      obtain ⟨rfl, follows⟩ := delimited _ _ _ _ (List.cons.inj same).2
      exact ⟨rfl, follows⟩

theorem sequence_delimited {α : Type} {encode : α → List UInt8} (delimited : SelfDelimiting encode) :
    SelfDelimiting (sequence encode) := by
  intro first second rest others same
  simp only [sequence, List.append_assoc] at same
  obtain ⟨length, tail⟩ := number_delimited _ _ _ _ same
  exact delimited.items length tail

theorem name_delimited : SelfDelimiting name :=
  number_delimited.comap fun _ _ => (Name.mk.injEq _ _).mpr

theorem word64_delimited : SelfDelimiting fun word : UInt64 => number word.toNat :=
  number_delimited.comap fun _ _ => UInt64.toNat_inj.mp

theorem word32_delimited : SelfDelimiting fun word : UInt32 => number word.toNat :=
  number_delimited.comap fun _ _ => UInt32.toNat_inj.mp

theorem span_delimited : SelfDelimiting span := by
  refine ((word32_delimited.pair word32_delimited).pair word32_delimited).comap
    (f := fun span : Span => ((span.file, span.start), span.stop)) ?_
  rintro ⟨file, start, stop⟩ ⟨file', start', stop'⟩ same
  cases same
  rfl

theorem vector_delimited : SelfDelimiting vector := by
  refine (number_delimited.pair (sequence_delimited word64_delimited)).comap
    (f := fun v : LogicVector => (v.width, v.words)) ?_
  rintro ⟨width, words⟩ ⟨width', words'⟩ same
  cases same
  rfl

/-! ## Alternatives

An alternative is written as its place among all of them, followed by its details. -/

def literalPlace : Literal → Nat
  | .unsized _ => 0
  | .sized _ => 1
  | .fill _ => 2

def literalDetails : Literal → List UInt8
  | .unsized value => number value.toNat
  | .sized bits => vector bits
  | .fill bit => number bit.code

def operatorPlace : BinaryOperator → Nat
  | .and => 0
  | .or => 1
  | .xor => 2
  | .add => 3
  | .sub => 4

def directionPlace : Direction → Nat
  | .input => 0
  | .output => 1
  | .inout => 2

def typePlace : PortType → Nat
  | .bit => 0
  | .logic => 1
  | .bitVector .. => 2
  | .logicVector .. => 3
  | .byte => 4
  | .shortint => 5
  | .int => 6
  | .longint => 7
  | .integer => 8
  | .real => 9
  | .string => 10
  | .named _ => 11

def typeDetails : PortType → List UInt8
  | .bitVector width signed | .logicVector width signed => number width.toNat ++ flag signed
  | .named key => name key
  | _ => []

def expressionPlace : Expression → Nat
  | .literal _ => 0
  | .not _ => 1
  | .binary .. => 2
  | .concat _ => 3

def expressionDetails : Expression → List UInt8
  | .literal value => literal value
  | .not operand => expression operand
  | .binary op left right => operator op ++ expression left ++ expression right
  | .concat parts => number parts.length ++ expressions parts

/-- What follows the place of an alternative may depend on the alternative. -/
theorem choice_delimited {α : Type} {place : α → Nat} {details : α → List UInt8}
    (told : ∀ first second rest others, place first = place second →
      details first ++ rest = details second ++ others → first = second ∧ rest = others) :
    SelfDelimiting fun value => number (place value) ++ details value := by
  intro first second rest others same
  simp only [List.append_assoc] at same
  obtain ⟨place, same⟩ := number_delimited _ _ _ _ same
  exact told first second rest others place same

theorem literal_delimited : SelfDelimiting literal := by
  have parts : literal = fun value => number (literalPlace value) ++ literalDetails value := by
    funext value
    cases value <;> rfl
  rw [parts]
  refine choice_delimited ?_
  intro first second rest others place same
  match first, second, place with
  | .unsized value, .unsized value', _ =>
    obtain ⟨rfl, follows⟩ := word64_delimited value value' _ _ same
    exact ⟨rfl, follows⟩
  | .sized bits, .sized bits', _ =>
    obtain ⟨rfl, follows⟩ := vector_delimited bits bits' _ _ same
    exact ⟨rfl, follows⟩
  | .fill bit, .fill bit', _ =>
    obtain ⟨code, follows⟩ := number_delimited _ _ _ _ same
    refine ⟨?_, follows⟩
    rw [← Logic.ofCode_code bit, code, Logic.ofCode_code]

theorem operator_delimited : SelfDelimiting operator := by
  have parts : operator = fun op => number (operatorPlace op) := by
    funext op
    cases op <;> rfl
  rw [parts]
  exact number_delimited.comap fun first second same => by
    cases first <;> cases second <;> simp_all [operatorPlace]

theorem direction_delimited : SelfDelimiting direction := by
  have parts : direction = fun direction => number (directionPlace direction) := by
    funext direction
    cases direction <;> rfl
  rw [parts]
  exact number_delimited.comap fun first second same => by
    cases first <;> cases second <;> simp_all [directionPlace]

theorem portType_delimited : SelfDelimiting portType := by
  have parts : portType = fun type => number (typePlace type) ++ typeDetails type := by
    funext type
    cases type <;> simp [portType, typePlace, typeDetails]
  rw [parts]
  refine choice_delimited ?_
  intro first second rest others place same
  have packed := word32_delimited.pair flag_delimited
  cases first with
  | bitVector width signed =>
    cases second with
    | bitVector width' signed' =>
      obtain ⟨both, follows⟩ := packed (width, signed) (width', signed') _ _ same
      cases both
      exact ⟨rfl, follows⟩
    | _ => cases place
  | logicVector width signed =>
    cases second with
    | logicVector width' signed' =>
      obtain ⟨both, follows⟩ := packed (width, signed) (width', signed') _ _ same
      cases both
      exact ⟨rfl, follows⟩
    | _ => cases place
  | named key =>
    cases second with
    | named key' =>
      obtain ⟨rfl, follows⟩ := name_delimited key key' _ _ same
      exact ⟨rfl, follows⟩
    | _ => cases place
  | _ =>
    -- The others have no details, so the place alone tells them apart.
    cases second <;> simp_all [typePlace, typeDetails]

/-! ## Expressions -/

theorem expression_parts {first second : Expression} {rest others : List UInt8}
    (same : expression first ++ rest = expression second ++ others) :
    expressionPlace first = expressionPlace second ∧
      expressionDetails first ++ rest = expressionDetails second ++ others := by
  have parts : ∀ e, expression e = number (expressionPlace e) ++ expressionDetails e := by
    intro e
    cases e <;> simp [expression, expressionPlace, expressionDetails]
  rw [parts, parts, List.append_assoc, List.append_assoc] at same
  exact number_delimited _ _ _ _ same

mutual

theorem expression_delimited : ∀ (first second : Expression) (rest others : List UInt8),
    expression first ++ rest = expression second ++ others → first = second ∧ rest = others
  | .literal value, second, rest, others, same => by
    obtain ⟨place, tail⟩ := expression_parts same
    match second, place with
    | .literal value', _ =>
      obtain ⟨rfl, follows⟩ := literal_delimited value value' _ _ tail
      exact ⟨rfl, follows⟩
  | .not operand, second, rest, others, same => by
    obtain ⟨place, tail⟩ := expression_parts same
    match second, place with
    | .not operand', _ =>
      obtain ⟨rfl, follows⟩ := expression_delimited operand operand' _ _ tail
      exact ⟨rfl, follows⟩
  | .binary op left right, second, rest, others, same => by
    obtain ⟨place, tail⟩ := expression_parts same
    match second, place with
    | .binary op' left' right', _ =>
      simp only [expressionDetails, List.append_assoc] at tail
      obtain ⟨rfl, tail'⟩ := operator_delimited _ _ _ _ tail
      obtain ⟨rfl, tail''⟩ := expression_delimited left left' _ _ tail'
      obtain ⟨rfl, follows⟩ := expression_delimited right right' _ _ tail''
      exact ⟨rfl, follows⟩
  | .concat parts, second, rest, others, same => by
    obtain ⟨place, tail⟩ := expression_parts same
    match second, place with
    | .concat parts', _ =>
      simp only [expressionDetails, List.append_assoc] at tail
      obtain ⟨length, tail'⟩ := number_delimited _ _ _ _ tail
      obtain ⟨rfl, follows⟩ := expressions_append parts parts' _ _ length tail'
      exact ⟨rfl, follows⟩

theorem expressions_append : ∀ (first second : List Expression) (rest others : List UInt8),
    first.length = second.length → expressions first ++ rest = expressions second ++ others →
      first = second ∧ rest = others
  | [], [], _, _, _, same => ⟨rfl, same⟩
  | part :: parts, part' :: parts', rest, others, length, same => by
    simp only [expressions, List.append_assoc] at same
    obtain ⟨rfl, tail⟩ := expression_delimited part part' _ _ same
    obtain ⟨rfl, follows⟩ := expressions_append parts parts' _ _ (Nat.succ.inj length) tail
    exact ⟨rfl, follows⟩

end

/-! ## Declarations -/

theorem port_delimited : SelfDelimiting port := by
  intro first second rest others same
  simp only [port, List.append_assoc] at same
  obtain ⟨name, same⟩ := name_delimited _ _ _ _ same
  obtain ⟨direction, same⟩ := direction_delimited _ _ _ _ same
  obtain ⟨type, same⟩ := portType_delimited _ _ _ _ same
  obtain ⟨initializer, same⟩ := optional_delimited expression_delimited _ _ _ _ same
  obtain ⟨span, follows⟩ := span_delimited _ _ _ _ same
  cases first
  cases second
  cases name
  cases direction
  cases type
  cases initializer
  cases span
  exact ⟨rfl, follows⟩

theorem declaration_delimited : SelfDelimiting declaration := by
  intro first second rest others same
  simp only [declaration, List.append_assoc] at same
  obtain ⟨name, same⟩ := name_delimited _ _ _ _ same
  obtain ⟨ports, same⟩ := sequence_delimited port_delimited _ _ _ _ same
  obtain ⟨span, follows⟩ := span_delimited _ _ _ _ same
  cases first
  cases second
  cases name
  cases ports
  cases span
  exact ⟨rfl, follows⟩

end Encoding

/-- Modules with the same bytes are equal, and the bytes of a module begin with those of no other.
So equal digests belong to one module, or two different byte sequences have one digest. -/
theorem Module.declared_in_digest (m other : Module) :
    (Encoding.declaration m = Encoding.declaration other ↔ m = other) ∧
      (Encoding.declaration m <+: Encoding.declaration other ↔ m = other) ∧
      (m.digest = other.digest ↔
        m = other ∨ Encoding.declaration m ≠ Encoding.declaration other ∧
          Digest.ofBytes (Encoding.declaration m) = Digest.ofBytes (Encoding.declaration other)) := by
  have injective : Encoding.declaration m = Encoding.declaration other ↔ m = other :=
    ⟨fun same => Encoding.declaration_delimited.eq_of_prefix (same ▸ List.prefix_rfl),
      congrArg Encoding.declaration⟩
  refine ⟨injective, ⟨Encoding.declaration_delimited.eq_of_prefix, ?_⟩, ?_⟩
  · rintro rfl
    exact List.prefix_rfl
  · constructor
    · intro same
      by_cases equal : m = other
      · exact .inl equal
      · exact .inr ⟨fun bytes => equal (injective.mp bytes), same⟩
    · rintro (rfl | ⟨_, collision⟩)
      · rfl
      · exact collision

end HdlPorts
