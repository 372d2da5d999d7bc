import HdlPorts.Proofs.PackedForm
import HdlPorts.Proofs.Traversals

/-! Vectors as the operations make them.

Whatever a vector was made with, it is the packed form of its bits: setting a bit writes two binary
digits of one word, and every other operation packs the bits of its result anew. So two vectors are
equal if they are read the same, and a vector is zero if all its words are. Operands need not be
packed: they have to have a word for every bit, and what else they hold does not reach the result.
-/

set_option autoImplicit false

namespace HdlPorts

/-! ## Writing one lane -/

namespace Word

theorem toLanes_setLane (word : UInt64) (index : Nat) (bit : Logic) :
    toLanes (setLane word index bit) = (toLanes word).set index bit := by
  have length : ((toLanes word).set index bit).length = lanes := by
    rw [List.length_set, length_toLanes]
  rw [setLane, toLanes_ofLanes _ (Nat.le_of_eq length), length, Nat.sub_self, List.replicate_zero,
    List.append_nil]

end Word

namespace LogicVector

variable {v w a b : LogicVector} {bits : List Logic} {index width : Nat} {bit : Logic}

/-- Writing a lane of a word writes one place among the lanes of all words. -/
theorem flatMap_toLanes_set {words : List UInt64} {word : UInt64}
    (stored : words[index / Word.lanes]? = some word) (bit : Logic) :
    (words.set (index / Word.lanes) (Word.setLane word (index % Word.lanes) bit)).flatMap
        Word.toLanes = (words.flatMap Word.toLanes).set index bit := by
  induction words generalizing index with
  | nil => cases stored
  | cons first rest ih =>
    by_cases here : index < Word.lanes
    · rw [Nat.div_eq_of_lt here] at stored ⊢
      cases stored
      rw [Nat.mod_eq_of_lt here, List.set_cons_zero, List.flatMap_cons, List.flatMap_cons,
        Word.toLanes_setLane, List.set_append_left _ _ (by rwa [Word.length_toLanes])]
    · -- The lanes of the first word stay, and the others are written further down.
      obtain ⟨above, rfl⟩ := Nat.exists_eq_add_of_le' (Nat.le_of_not_lt here)
      rw [Nat.add_div_right _ (by decide)] at stored ⊢
      rw [Nat.add_mod_right, List.set_cons_succ, List.flatMap_cons, List.flatMap_cons, ih stored,
        List.set_append_right _ _ (by simp), Word.length_toLanes, Nat.add_sub_cancel]

end LogicVector

/-! ## Reading and setting -/

namespace LogicVector

variable {v w a b : LogicVector} {bits : List Logic} {index width : Nat} {bit : Logic}

theorem get_eq_ok (complete : v.Complete) :
    v.get index = .ok bit ↔ v.readable[index]? = some bit := by
  have read := bits_of_complete complete
  constructor
  · intro got
    have bound : index < v.readable.length := by
      rw [length_readable complete]
      by_contra outside
      rw [get, if_neg outside] at got
      cases got
    have own := List.getElem?_eq_getElem bound
    cases got.symm.trans (get_of_bits read own)
    exact own
  · exact get_of_bits read

theorem get_ok (complete : v.Complete) (bound : index < v.width) :
    ∃ bit, v.get index = .ok bit := by
  rw [← length_readable complete] at bound
  exact ⟨_, (get_eq_ok complete).mpr (List.getElem?_eq_getElem bound)⟩

/-- Vectors of one width that have the same bit at a place are read the same there. -/
theorem get_congr (complete : v.Complete) (complete' : w.Complete) (width : v.width = w.width)
    (same : v.readable[index]? = w.readable[index]?) : v.get index = w.get index := by
  by_cases bound : index < v.width
  · obtain ⟨bit, got⟩ := get_ok complete bound
    have own := (get_eq_ok complete).mp got
    rw [got, (get_eq_ok complete').mpr (same ▸ own)]
  · rw [get, get, if_neg bound, if_neg (width ▸ bound), width]

/-- Vectors that are read the same below their width have the same bits. -/
theorem readable_eq_iff (complete : v.Complete) (complete' : w.Complete)
    (width : v.width = w.width) :
    v.readable = w.readable ↔
      ∀ index < v.width, ∃ bit, v.get index = .ok bit ∧ w.get index = .ok bit := by
  constructor
  · intro same index bound
    obtain ⟨bit, got⟩ := get_ok complete bound
    exact ⟨bit, got, (get_congr complete complete' width (same ▸ rfl)).symm.trans got⟩
  · intro each
    refine List.ext_getElem? fun index => ?_
    by_cases bound : index < v.width
    · obtain ⟨bit, got, got'⟩ := each index bound
      rw [(get_eq_ok complete).mp got, (get_eq_ok complete').mp got']
    · rw [List.getElem?_eq_none, List.getElem?_eq_none]
      · rw [length_readable complete', ← width]
        exact Nat.le_of_not_lt bound
      · rw [length_readable complete]
        exact Nat.le_of_not_lt bound

theorem forall_readable_iff (complete : v.Complete) (property : Logic → Prop) :
    (∀ bit ∈ v.readable, property bit) ↔
      ∀ index < v.width, ∃ bit, v.get index = .ok bit ∧ property bit := by
  constructor
  · intro all index bound
    obtain ⟨bit, got⟩ := get_ok complete bound
    exact ⟨bit, got, all bit (List.mem_of_getElem? ((get_eq_ok complete).mp got))⟩
  · intro each bit member
    obtain ⟨index, found⟩ := List.getElem?_of_mem member
    have bound : index < v.width := by
      rw [← length_readable complete]
      exact (List.getElem?_eq_some_iff.mp found).1
    obtain ⟨other, got, holds⟩ := each index bound
    cases found.symm.trans ((get_eq_ok complete).mp got)
    exact holds

/-- A vector that has all its words is changed at one place by setting a bit there. -/
theorem set_of_complete (complete : v.Complete) (bound : index < v.width) (bit : Logic) :
    ∃ changed, v.set index bit = .ok changed ∧ changed.width = v.width ∧
      changed.words.length = v.words.length ∧
      changed.words.flatMap Word.toLanes = (v.words.flatMap Word.toLanes).set index bit := by
  have inside : index / Word.lanes < v.words.length :=
    Nat.div_lt_of_lt_mul (Nat.lt_of_lt_of_le bound complete)
  have stored := List.getElem?_eq_getElem inside
  rw [set, if_pos bound, stored]
  exact ⟨_, rfl, rfl, List.length_set, flatMap_toLanes_set stored bit⟩

theorem Packed.set {changed : LogicVector} (packed : v.Packed)
    (done : v.set index bit = .ok changed) : changed.Packed := by
  have bound : index < v.width := by
    by_contra outside
    rw [LogicVector.set, if_neg outside] at done
    cases done
  obtain ⟨_, done', width, length, lanes⟩ := set_of_complete packed.complete bound bit
  cases done.symm.trans done'
  refine ⟨by rw [length, width, packed.words], ?_⟩
  rw [lanes, width, List.drop_set_of_lt bound]
  exact packed.above

/-! ## Comparing -/

/-- Packed vectors are the same if they are read the same. -/
theorem Packed.eq_iff (packed : v.Packed) (packed' : w.Packed) :
    v = w ↔ v.width = w.width ∧
      ∀ index < v.width, ∃ bit, v.get index = .ok bit ∧ w.get index = .ok bit := by
  constructor
  · rintro rfl
    exact ⟨rfl, (readable_eq_iff packed.complete packed.complete rfl).mp rfl⟩
  · rintro ⟨width, same⟩
    rw [← packed.ofBits_readable, ← packed'.ofBits_readable,
      (readable_eq_iff packed.complete packed'.complete width).mpr same]

theorem parse?_eq_some {text : String} :
    parse? text = some v ↔ ∃ digits, (text.toList.filter (· != '_')).mapM Logic.ofChar? =
      some digits ∧ digits ≠ [] ∧ v = ofBits digits.reverse := by
  unfold parse?
  cases (text.toList.filter (· != '_')).mapM Logic.ofChar? with
  | none => simp
  | some digits => cases digits <;> simp [eq_comm]

theorem packed_of_extend {wider : LogicVector} (done : v.extend width = .ok wider) :
    wider.Packed :=
  packed_iff_tidy.mpr (tidy_of_extend done)

theorem append_eq_ok {whole : LogicVector} : v.append w = .ok whole ↔
    v.Complete ∧ w.Complete ∧ whole = ofBits (w.readable ++ v.readable) := by
  constructor
  · intro done
    obtain ⟨low, readLow, done⟩ := ok_of_bind done
    obtain ⟨high, readHigh, done⟩ := ok_of_bind done
    obtain ⟨completeLow, rfl⟩ := complete_of_bits readLow
    obtain ⟨completeHigh, rfl⟩ := complete_of_bits readHigh
    cases done
    exact ⟨completeHigh, completeLow, rfl⟩
  · rintro ⟨completeHigh, completeLow, rfl⟩
    exact append_of_complete completeHigh completeLow

theorem packed_of_append {whole : LogicVector} (done : v.append w = .ok whole) : whole.Packed := by
  obtain ⟨_, _, rfl⟩ := append_eq_ok.mp done
  exact packed_ofBits _

theorem packed_of_zipWith {op : Logic → Logic → Logic} {result : LogicVector}
    (done : zipWith op v w = .ok result) : result.Packed := by
  obtain ⟨_, _, done⟩ := ok_of_bind done
  obtain ⟨_, _, done⟩ := ok_of_bind done
  obtain ⟨_, _, done⟩ := ok_of_bind done
  obtain ⟨_, _, done⟩ := ok_of_bind done
  cases done
  exact packed_ofBits _

theorem packed_of_complement {result : LogicVector} (done : v.complement = .ok result) :
    result.Packed := by
  obtain ⟨_, _, done⟩ := ok_of_bind done
  cases done
  exact packed_ofBits _

/-- A vector that was filled, made of a number or read from a text, or that an operation has made
of such vectors. -/
inductive Built : LogicVector → Prop where
  | zeros (width : Nat) : Built (zeros width)
  | filled (width : Nat) (bit : Logic) : Built (filled width bit)
  | number (number : UInt64) (width : Nat) : Built (ofUInt64 number width)
  | read {text : String} {v : LogicVector} : parse? text = some v → Built v
  | set {v changed : LogicVector} {index : Nat} {bit : Logic} : Built v →
      v.set index bit = .ok changed → Built changed
  | extend {v wider : LogicVector} {width : Nat} : Built v → v.extend width = .ok wider →
      Built wider
  | append {high low whole : LogicVector} : Built high → Built low →
      high.append low = .ok whole → Built whole
  | zipWith {op : Logic → Logic → Logic} {a b result : LogicVector} : Built a → Built b →
      zipWith op a b = .ok result → Built result
  | complement {v result : LogicVector} : Built v → v.complement = .ok result → Built result

theorem Built.packed (built : v.Built) : v.Packed := by
  induction built with
  | zeros | filled | number => exact packed_ofBits _
  | read parsed =>
    obtain ⟨_, _, _, rfl⟩ := parse?_eq_some.mp parsed
    exact packed_ofBits _
  | set _ done packed => exact packed.set done
  | extend _ done => exact packed_of_extend done
  | append _ _ done => exact packed_of_append done
  | zipWith _ _ done => exact packed_of_zipWith done
  | complement _ done => exact packed_of_complement done

end LogicVector

namespace Sample

end Sample

end HdlPorts
