import HdlPorts.Netlist.Arena
import Mathlib.Data.List.Basic

/-! What an arena holds and in which order.

The entries of an arena come in the order of their slots, which is the order in which the items were
stored, and each entry is what its slot finds.
-/

set_option autoImplicit false

namespace HdlPorts

namespace Arena

variable {α : Type}

/-- A stored item is the last entry, under the slot that it was given. -/
theorem entries_alloc (arena : Arena α) (item : α) :
    (arena.alloc item).2.entries = arena.entries ++ [((arena.alloc item).1, item)] := by
  unfold entries alloc
  rw [List.zipIdx_append, List.map_append, Nat.zero_add]
  rfl

theorem mem_entries {arena : Arena α} {slot : Slot α} {item : α} :
    (slot, item) ∈ arena.entries ↔ arena.get? slot = some item := by
  unfold entries get?
  simp only [List.mem_map, Prod.exists, Prod.mk.injEq]
  constructor
  · rintro ⟨stored, index, member, rfl, rfl⟩
    exact List.mem_zipIdx_iff_getElem?.mp member
  · intro found
    exact ⟨item, slot.index, List.mem_zipIdx_iff_getElem?.mpr found, rfl, rfl⟩

/-- Entries come in the order of their slots. -/
theorem entries_ordered (arena : Arena α) :
    arena.entries.Pairwise fun first second => first.1.index < second.1.index := by
  have slots : arena.entries.map (fun entry => entry.1.index) = List.range arena.items.length := by
    unfold entries
    rw [List.map_map, List.range_eq_range']
    exact List.zipIdx_map_snd 0 arena.items
  have ordered : (List.range arena.items.length).Pairwise (· < ·) := List.pairwise_lt_range
  rw [← slots, List.pairwise_map] at ordered
  exact ordered

end Arena

end HdlPorts
