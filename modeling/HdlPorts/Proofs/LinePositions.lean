import HdlPorts.Proofs.TextBytes
import Mathlib.Data.Prod.Lex

/-! Lines and columns are exact.

The index of a text lists the starts of its lines in strictly increasing order, from zero on. So one
place in the index parts the starts at or below an offset from those above it, however that place is
searched for. The line of an offset is the number of starts up to there, and its column is counted
from the last of them. Nothing of the offset is lost, not even past the end of the text.
-/

set_option autoImplicit false

namespace HdlPorts.SourceText

variable {source : SourceText} {bytes : List UInt8} {starts : List Nat}
  {position offset start index : Nat}

/-! ## The index -/

theorem mem_startsAfter : start ∈ startsAfter position bytes ↔
    ∃ index, bytes[index]? = some newline ∧ start = position + index + 1 := by
  induction bytes generalizing position with
  | nil => simp [startsAfter]
  | cons byte rest ih =>
    have shift : (∃ index, (byte :: rest)[index]? = some newline ∧ start = position + index + 1) ↔
        (byte = newline ∧ start = position + 1) ∨
          ∃ index, rest[index]? = some newline ∧ start = position + 1 + index + 1 := by
      constructor
      · rintro ⟨_ | index, found, rfl⟩
        · exact .inl ⟨Option.some.inj found, rfl⟩
        · exact .inr ⟨index, found, by omega⟩
      · rintro (⟨rfl, rfl⟩ | ⟨index, found, rfl⟩)
        · exact ⟨0, rfl, rfl⟩
        · exact ⟨index + 1, found, by omega⟩
    rw [shift, startsAfter]
    by_cases hit : byte = newline <;> simp [hit, ih]

theorem lt_of_mem_startsAfter (member : start ∈ startsAfter position bytes) : position < start := by
  obtain ⟨index, _, rfl⟩ := mem_startsAfter.mp member
  omega

theorem pairwise_startsAfter (position : Nat) (bytes : List UInt8) :
    (startsAfter position bytes).Pairwise (· < ·) := by
  induction bytes generalizing position with
  | nil => exact .nil
  | cons byte rest ih =>
    rw [startsAfter]
    split
    · exact .cons (fun _ => lt_of_mem_startsAfter) (ih (position + 1))
    · exact ih (position + 1)

theorem pairwise_lineStarts (source : SourceText) : source.lineStarts.Pairwise (· < ·) :=
  .cons (fun _ => lt_of_mem_startsAfter) (pairwise_startsAfter 0 _)

/-- A line starts at the beginning of the text or after a newline. -/
theorem mem_lineStarts : start ∈ source.lineStarts ↔
    start = 0 ∨ ∃ index, (Utf8.bytes source.content)[index]? = some newline ∧ start = index + 1 := by
  rw [lineStarts, List.mem_cons, mem_startsAfter]
  simp only [Nat.zero_add]

theorem le_of_mem_lineStarts (member : start ∈ source.lineStarts) :
    start ≤ source.content.utf8ByteSize := by
  rcases mem_lineStarts.mp member with rfl | ⟨index, found, rfl⟩
  · exact Nat.zero_le _
  · rw [← Utf8.length_bytes]
    exact (List.getElem?_eq_some_iff.mp found).1

/-- In an increasing list, the items up to a bound are those at its first places. -/
theorem le_iff_lt_length (sorted : starts.Pairwise (· < ·)) (found : starts[index]? = some start) :
    start ≤ offset ↔ index < (starts.takeWhile (· ≤ offset)).length := by
  induction starts generalizing index with
  | nil => cases found
  | cons first rest ih =>
    obtain ⟨above, sorted⟩ := List.pairwise_cons.mp sorted
    rw [List.takeWhile_cons]
    by_cases low : first ≤ offset
    · cases index with
      | zero =>
        cases found
        simp [low]
      | succ index => simp [low, ih sorted found]
    · -- All that comes later is larger still.
      have high : offset < start := by
        cases index with
        | zero =>
          cases found
          omega
        | succ index =>
          have := above start (List.mem_of_getElem? found)
          omega
      simp [low]
      omega

/-- The starts up to an offset are as many as the newlines before it. -/
theorem length_takeWhile_startsAfter (position : Nat) (bytes : List UInt8) :
    ((startsAfter position bytes).takeWhile (· ≤ offset)).length =
      (bytes.take (offset - position)).count newline := by
  induction bytes generalizing position with
  | nil => simp [startsAfter]
  | cons byte rest ih =>
    rw [startsAfter]
    by_cases before : position < offset
    · have step : offset - position = offset - (position + 1) + 1 := by omega
      rw [step, List.take_succ_cons, List.count_cons, ← ih]
      by_cases hit : byte = newline
      · rw [if_pos hit, List.takeWhile_cons_of_pos (by simp; omega)]
        simp [hit]
      · simp [hit]
    · -- The offset is not reached by what has yet to come.
      have later := ih (position + 1)
      rw [show offset - (position + 1) = 0 by omega, List.take_zero, List.count_nil] at later
      rw [show offset - position = 0 by omega, List.take_zero, List.count_nil]
      by_cases hit : byte = newline
      · rw [if_pos hit, List.takeWhile_cons_of_neg (by simp; omega), List.length_nil]
      · rwa [if_neg hit]

theorem line_eq_count (source : SourceText) (offset : Nat) :
    source.line offset = ((Utf8.bytes source.content).take offset).count newline + 1 := by
  rw [line, lineStarts, List.takeWhile_cons_of_pos (by simp), List.length_cons,
    length_takeWhile_startsAfter, Nat.sub_zero]

/-! ## The line of an offset -/

theorem line_pos (source : SourceText) (offset : Nat) : 1 ≤ source.line offset := by
  rw [line_eq_count]
  exact Nat.le_add_left _ _

theorem line_le (source : SourceText) (offset : Nat) :
    source.line offset ≤ source.lineStarts.length :=
  (List.takeWhile_prefix _).length_le

/-- The start of the line of an offset is in the index. -/
theorem getElem?_line (source : SourceText) (offset : Nat) :
    source.lineStarts[source.line offset - 1]? =
      some (source.lineStart (source.line offset)) := by
  have pos := source.line_pos offset
  have bound := source.line_le offset
  rw [lineStart, List.getD_eq_getElem?_getD, List.getElem?_eq_getElem (by omega)]
  rfl

theorem le_iff_lt_line (found : source.lineStarts[index]? = some start) :
    start ≤ offset ↔ index < source.line offset :=
  le_iff_lt_length source.pairwise_lineStarts found

theorem lineStart_le (source : SourceText) (offset : Nat) :
    source.lineStart (source.line offset) ≤ offset := by
  have pos := source.line_pos offset
  exact (le_iff_lt_line (source.getElem?_line offset)).mpr (by omega)

/-- An offset is in the line of the last start that it has reached. -/
theorem line_eq_iff (found : source.lineStarts[index]? = some start) :
    source.line offset = index + 1 ↔
      start ≤ offset ∧ ∀ next, source.lineStarts[index + 1]? = some next → offset < next := by
  have bound := source.line_le offset
  constructor
  · intro same
    refine ⟨(le_iff_lt_line found).mpr (by omega), fun next further => ?_⟩
    have unreached : ¬ next ≤ offset := mt (le_iff_lt_line further).mp (by omega)
    omega
  · rintro ⟨low, high⟩
    have reached := (le_iff_lt_line found).mp low
    by_contra other
    -- The next start would have been reached as well.
    have further := List.getElem?_eq_getElem (show index + 1 < source.lineStarts.length by omega)
    exact Nat.not_le_of_lt (high _ further)
      ((le_iff_lt_line further).mpr (show index + 1 < source.line offset by omega))

theorem line_of_start (found : source.lineStarts[index]? = some start) :
    source.line start = index + 1 := by
  refine (line_eq_iff found).mpr ⟨Nat.le_refl _, fun next further => ?_⟩
  obtain ⟨_, rfl⟩ := List.getElem?_eq_some_iff.mp found
  obtain ⟨_, rfl⟩ := List.getElem?_eq_some_iff.mp further
  exact List.pairwise_iff_getElem.mp source.pairwise_lineStarts _ _ _ _ (Nat.lt_succ_self index)

/-- The start of a line is the beginning of the text or follows a newline. -/
theorem lineStart_eq (source : SourceText) (offset : Nat) :
    source.lineStart (source.line offset) = 0 ∨
      (Utf8.bytes source.content)[source.lineStart (source.line offset) - 1]? = some newline := by
  rcases mem_lineStarts.mp (List.mem_of_getElem? (source.getElem?_line offset)) with
    first | ⟨index, found, start⟩
  · exact .inl first
  · rw [start]
    exact .inr found

/-- There is no newline between the start of its line and an offset. -/
theorem no_newline_before (source : SourceText)
    (low : source.lineStart (source.line offset) ≤ position) (high : position < offset) :
    (Utf8.bytes source.content)[position]? ≠ some newline := by
  intro hit
  -- The line after it would have started by then, so the line of the offset would start later.
  obtain ⟨index, found⟩ :=
    List.mem_iff_getElem?.mp (mem_lineStarts.mpr (.inr ⟨position, hit, rfl⟩))
  have reached := (le_iff_lt_line found).mp high
  have pos := source.line_pos offset
  have own := (le_iff_lt_line (source.getElem?_line offset)).mp (Nat.le_refl _)
  have later : position + 1 ≤ source.lineStart (source.line offset) :=
    (le_iff_lt_line found).mpr (by omega)
  omega

/-! ## The column of an offset -/

theorem lineStart_add_column (source : SourceText) (offset : Nat) :
    source.lineStart (source.line offset) + (source.column offset - 1) = offset := by
  have low := source.lineStart_le offset
  rw [column]
  omega

theorem line_mono {first second : Nat} (order : first ≤ second) :
    source.line first ≤ source.line second := by
  rw [line_eq_count, line_eq_count]
  exact Nat.add_le_add_right ((List.take_prefix_take_left order).sublist.count_le _) 1

/-- Later offsets are on later lines, or in later columns of one line. -/
theorem line_column_lt {first second : Nat} (order : first < second) :
    source.line first < source.line second ∨
      source.line first = source.line second ∧ source.column first < source.column second := by
  rcases Nat.lt_or_eq_of_le (source.line_mono (Nat.le_of_lt order)) with later | same
  · exact .inl later
  · have low := source.lineStart_le first
    refine .inr ⟨same, ?_⟩
    rw [column, column, ← same]
    omega

/-! ## Newlines and the end -/

/-- A newline ends its own line, and the next line starts after it. -/
theorem line_succ_of_newline (found : (Utf8.bytes source.content)[offset]? = some newline) :
    source.line (offset + 1) = source.line offset + 1 := by
  rw [line_eq_count, line_eq_count, List.take_add_one, found, List.count_append]
  rfl

theorem getElem?_line_of_newline (found : (Utf8.bytes source.content)[offset]? = some newline) :
    source.lineStarts[source.line offset]? = some (offset + 1) := by
  obtain ⟨index, listed⟩ :=
    List.mem_iff_getElem?.mp (mem_lineStarts.mpr (.inr ⟨offset, found, rfl⟩))
  have own := line_of_start listed
  rw [line_succ_of_newline found] at own
  rwa [Nat.add_right_cancel own]

theorem line_of_size_le (past : source.content.utf8ByteSize ≤ offset) :
    source.line offset = source.lineStarts.length := by
  refine Nat.le_antisymm (source.line_le offset) (Nat.le_of_not_lt fun more => ?_)
  -- The next start lies in the text, so it has been reached.
  have further := List.getElem?_eq_getElem more
  have reached := Nat.le_trans (le_of_mem_lineStarts (List.mem_of_getElem? further)) past
  exact Nat.lt_irrefl _ ((le_iff_lt_line further).mp reached)

/-! ## Places -/

/-- What a line and a column say of an offset. -/
structure Places (source : SourceText) (offset line column : Nat) : Prop where
  line_eq : line = ((Utf8.bytes source.content).take offset).count newline + 1
  column_pos : 1 ≤ column
  start_listed : source.lineStarts[line - 1]? = some (source.lineStart line)
  start_add_column : source.lineStart line + (column - 1) = offset
  start_first : source.lineStart line = 0 ∨
    (Utf8.bytes source.content)[source.lineStart line - 1]? = some newline
  no_newline : ∀ position, source.lineStart line ≤ position → position < offset →
    (Utf8.bytes source.content)[position]? ≠ some newline
  /-- The line parts the index, so that any search for the place of the offset ends there. -/
  parts : ∀ index start, source.lineStarts[index]? = some start → (start ≤ offset ↔ index < line)
  /-- Nothing that is computed is above the offset by more than one. -/
  bounded : line ≤ offset + 1 ∧ column ≤ offset + 1

theorem places (source : SourceText) (offset : Nat) :
    source.Places offset (source.line offset) (source.column offset) where
  line_eq := source.line_eq_count offset
  column_pos := Nat.le_add_left _ _
  start_listed := source.getElem?_line offset
  start_add_column := source.lineStart_add_column offset
  start_first := source.lineStart_eq offset
  no_newline _ := source.no_newline_before
  parts _ _ := le_iff_lt_line
  bounded := by
    refine ⟨?_, Nat.succ_le_succ (Nat.sub_le _ _)⟩
    rw [line_eq_count]
    exact Nat.succ_le_succ (Nat.le_trans List.count_le_length (List.length_take_le _ _))

/-- Lines and columns are exact: the index starts at zero, increases and stays within the text;
every offset, also past the end, is told by its line and column, in their order; a newline is at
the end of its own line, and what is past the end is on the last one. -/
theorem line_column_exact (source : SourceText) :
    (source.lineStarts.head? = some 0 ∧ source.lineStarts.Pairwise (· < ·) ∧
      ∀ start ∈ source.lineStarts, start ≤ source.content.utf8ByteSize) ∧
    (∀ offset, source.Places offset (source.line offset) (source.column offset)) ∧
    (StrictMono fun offset => toLex (source.line offset, source.column offset)) ∧
    (Function.Injective fun offset => (source.line offset, source.column offset)) ∧
    (∀ offset, (Utf8.bytes source.content)[offset]? = some newline →
      source.lineEnd (source.line offset) = offset ∧
      source.line (offset + 1) = source.line offset + 1 ∧ source.column (offset + 1) = 1) ∧
    ∀ offset, source.content.utf8ByteSize ≤ offset →
      source.line offset = source.lineStarts.length := by
  have increasing : StrictMono fun offset => toLex (source.line offset, source.column offset) :=
    fun _ _ order => Prod.Lex.toLex_lt_toLex.mpr (source.line_column_lt order)
  refine ⟨⟨rfl, source.pairwise_lineStarts, fun _ => le_of_mem_lineStarts⟩, source.places, increasing,
    fun _ _ same => increasing.injective (congrArg toLex same), fun offset found => ?_,
    fun _ => line_of_size_le⟩
  have next := getElem?_line_of_newline found
  have later := line_succ_of_newline found
  refine ⟨by rw [lineEnd, next]; rfl, later, ?_⟩
  -- The offset after the newline is the start of its line.
  have own := source.getElem?_line (offset + 1)
  rw [later, Nat.add_sub_cancel, next] at own
  rw [column, later, ← Option.some.inj own, Nat.sub_self]

example :
    let source := SourceText.mk "c.sv" "a\nbc"
    (source.line 3, source.column 3) = (2, 2) := by
  decide

end HdlPorts.SourceText
