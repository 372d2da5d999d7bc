import HdlPorts.Proofs.BuiltEntities

/-! The packed form of a vector.

Words and lanes are read off a vector as they are, so two vectors of the same bits may differ in
words to spare and in bits above their width. A vector without these is the packed form of its bits,
and there is only one.
-/

set_option autoImplicit false

namespace HdlPorts

namespace Word

theorem code_ofCode {code : Nat} (small : code < 4) : (Logic.ofCode code).code = code := by
  match code with
  | 0 | 1 | 2 | 3 => rfl

theorem code_digits (count number : Nat) :
    code (digits count number) = number % Nat.pow 4 count := by
  induction count generalizing number with
  | zero => simp [digits, code, Nat.mod_one]
  | succ count ih =>
    have split : number % (4 * Nat.pow 4 count) =
        number % 4 + 4 * (number / 4 % Nat.pow 4 count) := Nat.mod_mul
    rw [digits, code, ih, code_ofCode (Nat.mod_lt _ (by decide)), show
      Nat.pow 4 (count + 1) = 4 * Nat.pow 4 count from Nat.mul_comm _ _, split]

/-- A word is made of its lanes. -/
theorem ofLanes_toLanes (word : UInt64) : ofLanes (toLanes word) = word := by
  have small : word.toNat < Nat.pow 4 lanes := word.toNat_lt
  rw [ofLanes, toLanes, code_digits, Nat.mod_eq_of_lt small, UInt64.ofNat_toNat]

end Word

namespace LogicVector

variable {v : LogicVector}

theorem eq_of_flatMap_toLanes {words others : List UInt64} (length : words.length = others.length)
    (same : words.flatMap Word.toLanes = others.flatMap Word.toLanes) : words = others := by
  induction words generalizing others with
  | nil => exact (List.length_eq_zero_iff.mp length.symm).symm
  | cons word rest ih =>
    cases others with
    | nil => cases length
    | cons other rest' =>
      simp only [List.flatMap_cons] at same
      obtain ⟨first, others⟩ := List.append_inj same (by simp)
      rw [← Word.ofLanes_toLanes word, first, Word.ofLanes_toLanes,
        ih (Nat.succ.inj length) others]

/-- The vector has as many words as it needs, and nothing is set above its width. -/
structure Packed (v : LogicVector) : Prop where
  words : v.words.length = wordsFor v.width
  above : ∀ bit ∈ (v.words.flatMap Word.toLanes).drop v.width, bit = .zero

theorem Packed.complete (packed : v.Packed) : v.Complete := by
  rw [Complete, packed.words]
  exact le_lanes_mul_wordsFor v.width

theorem packed_ofBits (bits : List Logic) : (ofBits bits).Packed := by
  refine ⟨length_pack _ _, fun bit member => ?_⟩
  simp only [ofBits, flatMap_toLanes_pack (le_lanes_mul_wordsFor bits.length),
    List.drop_left] at member
  exact List.eq_of_mem_replicate member

/-- A packed vector is made of its bits. -/
theorem Packed.ofBits_readable (packed : v.Packed) : ofBits v.readable = v := by
  have length := length_readable packed.complete
  -- Both vectors have as many words, so it is enough to compare their lanes.
  have lanes : v.words.flatMap Word.toLanes =
      v.readable ++ List.replicate (Word.lanes * wordsFor v.width - v.width) .zero := by
    rw [← List.take_append_drop v.width (v.words.flatMap Word.toLanes)]
    congr 1
    refine List.eq_replicate_iff.mpr ⟨?_, packed.above⟩
    rw [List.length_drop, length_flatMap_toLanes, packed.words]
  have words : pack (wordsFor v.width) v.readable = v.words := by
    refine eq_of_flatMap_toLanes (by rw [length_pack, packed.words]) ?_
    rw [lanes, flatMap_toLanes_pack (by rw [length]; exact le_lanes_mul_wordsFor _), length]
  cases v with
  | mk width words' =>
    simp only [ofBits, length, words]

theorem packed_iff_tidy : v.Packed ↔ v.Tidy := by
  constructor
  · intro packed
    exact ⟨v.readable, packed.ofBits_readable.symm⟩
  · rintro ⟨bits, rfl⟩
    exact packed_ofBits bits

end LogicVector

end HdlPorts
