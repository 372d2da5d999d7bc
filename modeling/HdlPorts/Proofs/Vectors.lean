import HdlPorts.Bits.Operations

/-! Operations on vectors that have all their words.

Reading such a vector never fails, and every operation makes another one. Its width is known from
the widths of the operands alone.
-/

set_option autoImplicit false

namespace HdlPorts

/-- Where every item stands for as many things, the position of a thing tells the item. -/
theorem getElem?_flatMap {α β : Type} {f : α → List β} {count : Nat}
    (each : ∀ item, (f item).length = count) (positive : 0 < count) (items : List α)
    (index : Nat) :
    (items.flatMap f)[index]? = items[index / count]?.bind fun item => (f item)[index % count]? := by
  induction items generalizing index with
  | nil => simp
  | cons item rest ih =>
    rw [List.flatMap_cons]
    by_cases first : index < count
    · rw [List.getElem?_append_left (by rwa [each]), Nat.div_eq_of_lt first,
        Nat.mod_eq_of_lt first]
      rfl
    · -- The other items are looked at with an index that is smaller by what the first stands for.
      obtain ⟨above, rfl⟩ := Nat.exists_eq_add_of_le' (Nat.le_of_not_lt first)
      rw [List.getElem?_append_right (by simp [each]), each, Nat.add_sub_cancel, ih,
        Nat.add_mod_right, Nat.add_div_right _ positive, List.getElem?_cons_succ]

namespace LogicVector

variable {v a b : LogicVector} {bits : List Logic} {width : Nat}

theorem length_flatMap_toLanes (words : List UInt64) :
    (words.flatMap Word.toLanes).length = Word.lanes * words.length := by
  induction words with
  | nil => rfl
  | cons word rest ih =>
    rw [List.flatMap_cons, List.length_append, Word.length_toLanes, ih, List.length_cons,
      Nat.mul_succ, Nat.add_comm]

theorem length_readable (complete : v.Complete) : v.readable.length = v.width := by
  rw [readable, List.length_take, length_flatMap_toLanes]
  exact Nat.min_eq_left complete

theorem bits_of_complete (complete : v.Complete) : v.bits = .ok v.readable := if_pos complete

theorem complete_of_bits (read : v.bits = .ok bits) : v.Complete ∧ bits = v.readable := by
  unfold LogicVector.bits at read
  split at read
  · next complete => exact ⟨complete, (Except.ok.inj read).symm⟩
  · cases read

theorem width_of_bits (read : v.bits = .ok bits) : v.width = bits.length := by
  obtain ⟨complete, rfl⟩ := complete_of_bits read
  exact (length_readable complete).symm

theorem readable_ofBits (bits : List Logic) : (ofBits bits).readable = bits :=
  Except.ok.inj ((bits_of_complete (complete_ofBits bits)).symm.trans (bits_ofBits bits))

theorem getElem?_flatMap_toLanes (words : List UInt64) (index : Nat) :
    (words.flatMap Word.toLanes)[index]? =
      words[index / Word.lanes]?.map (Word.lane · (index % Word.lanes)) := by
  have bound : index % Word.lanes < Word.lanes := Nat.mod_lt _ (by decide)
  rw [getElem?_flatMap Word.length_toLanes (by decide), Option.map_eq_bind]
  refine Option.bind_congr fun word _ => ?_
  exact Word.getElem?_toLanes word bound

/-- One bit of a vector is the bit at its place among all of them. -/
theorem get_of_bits (read : v.bits = .ok bits) {index : Nat} {bit : Logic}
    (found : bits[index]? = some bit) : v.get index = .ok bit := by
  have bound : index < v.width := by
    rw [width_of_bits read]
    exact (List.getElem?_eq_some_iff.mp found).1
  obtain ⟨_, rfl⟩ := complete_of_bits read
  rw [readable, List.getElem?_take_of_lt bound, getElem?_flatMap_toLanes,
    Option.map_eq_some_iff] at found
  obtain ⟨word, stored, rfl⟩ := found
  rw [get, if_pos bound, stored]

@[simp] theorem width_filled (width : Nat) (bit : Logic) : (filled width bit).width = width :=
  List.length_replicate

theorem complete_filled (width : Nat) (bit : Logic) : (filled width bit).Complete :=
  complete_ofBits _

theorem complete_ofUInt64 (number : UInt64) (width : Nat) : (ofUInt64 number width).Complete :=
  complete_ofBits _

theorem length_padded (enough : bits.length ≤ width) : (padded width bits).length = width := by
  rw [padded, List.length_append, List.length_replicate]
  omega

theorem extend_of_complete (complete : v.Complete) (enough : v.width ≤ width) :
    v.extend width = .ok (ofBits (padded width v.readable)) := by
  simp only [extend, if_pos enough, bits_of_complete complete, bind, Except.bind]
  rfl

/-- Whatever was widened has the width that was asked for. -/
theorem width_of_extend {wider : LogicVector} (done : v.extend width = .ok wider) :
    wider.width = width := by
  unfold extend at done
  split at done
  · next enough =>
    cases read : v.bits with
    | error fault =>
      rw [read] at done
      cases done
    | ok bits =>
      obtain ⟨complete, rfl⟩ := complete_of_bits read
      rw [read] at done
      cases done
      exact length_padded (by rwa [length_readable complete])
  · cases done

theorem complement_of_complete (complete : v.Complete) :
    v.complement = .ok (ofBits (v.readable.map Logic.not)) := by
  simp only [complement, bits_of_complete complete, bind, Except.bind]
  rfl

theorem append_of_complete (high : a.Complete) (low : b.Complete) :
    a.append b = .ok (ofBits (b.readable ++ a.readable)) := by
  simp only [append, bits_of_complete high, bits_of_complete low, bind, Except.bind]
  rfl

theorem zipWith_of_complete (op : Logic → Logic → Logic) (left : a.Complete)
    (right : b.Complete) :
    zipWith op a b = .ok (ofBits (List.zipWith op (padded (max a.width b.width) a.readable)
      (padded (max a.width b.width) b.readable))) := by
  simp only [zipWith, extend_of_complete left (Nat.le_max_left _ _),
    extend_of_complete right (Nat.le_max_right _ _), bind, Except.bind, bits_ofBits]
  rfl

/-- The number of a complete vector, if it has at most 64 bits and all of them are known. -/
theorem toUInt64?_of_complete (complete : v.Complete) :
    v.toUInt64? = .ok (if 64 < v.width ∨ v.readable.any (fun bit => !bit.isKnown) then none
      else some (UInt64.ofNat (number v.readable))) := by
  unfold toUInt64?
  by_cases wide : 64 < v.width
  · rw [if_pos wide, if_pos (.inl wide)]
  · by_cases unknown : v.readable.any (fun bit => !bit.isKnown) = true
    · rw [if_neg wide, if_pos unknown, if_pos (.inr unknown)]
    · rw [if_neg wide, if_neg unknown, if_pos complete, if_neg (by simp [wide, unknown])]

end LogicVector

end HdlPorts
