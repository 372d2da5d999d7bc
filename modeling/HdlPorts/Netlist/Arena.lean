import HdlPorts.Fault

/-! Storage that only grows.

Items are numbered in the order in which they are stored and are never removed, so a slot that was
handed out keeps standing for the same item.
-/

set_option autoImplicit false

namespace HdlPorts

/-- The place of an item in an arena of items of type `α`. -/
structure Slot (α : Type) where
  index : Nat
  deriving DecidableEq

structure Arena (α : Type) where
  items : List α
  deriving DecidableEq

namespace Arena

variable {α : Type}

def empty : Arena α := ⟨[]⟩

def size (arena : Arena α) : Nat := arena.items.length

def alloc (arena : Arena α) (item : α) : Slot α × Arena α :=
  (⟨arena.size⟩, ⟨arena.items ++ [item]⟩)

def get? (arena : Arena α) (slot : Slot α) : Option α := arena.items[slot.index]?

/-- The item in a slot of this arena. -/
def get (arena : Arena α) (slot : Slot α) : Checked α :=
  match arena.get? slot with
  | some item => .ok item
  | none => .error .unknownSlot

theorem get_eq_ok {arena : Arena α} {slot : Slot α} {item : α} :
    arena.get slot = .ok item ↔ arena.get? slot = some item := by
  unfold get
  cases arena.get? slot <;> simp

/-- All items with their slots, in the order in which they were stored. -/
def entries (arena : Arena α) : List (Slot α × α) :=
  arena.items.zipIdx.map fun (item, index) => (⟨index⟩, item)

end Arena

end HdlPorts
