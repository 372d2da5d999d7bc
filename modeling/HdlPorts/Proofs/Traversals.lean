import HdlPorts.Proofs.Attempts
import Mathlib.Data.List.Forall2

/-! Mapping a computation over a list.

The computation goes through for the list exactly if it does for every item, and then the results
stand in the order of the items.
-/

set_option autoImplicit false

namespace HdlPorts

variable {ε α β γ : Type} {items : List α}

theorem exists_of_forall₂ {each : α → β → Prop} {left : List α} {right : List β}
    (related : List.Forall₂ each left right) {item : β} (member : item ∈ right) :
    ∃ other ∈ left, each other item := by
  induction related with
  | nil => cases member
  | cons own _ ih =>
    rcases List.mem_cons.mp member with rfl | member
    · exact ⟨_, List.mem_cons_self, own⟩
    · obtain ⟨other, listed, related⟩ := ih member
      exact ⟨other, List.mem_cons_of_mem _ listed, related⟩

theorem mapM_eq_ok {f : α → Except ε β} {results : List β} :
    items.mapM f = .ok results ↔
      List.Forall₂ (fun item result => f item = .ok result) items results := by
  constructor
  · intro done
    induction items generalizing results with
    | nil =>
      cases done
      exact .nil
    | cons item rest ih =>
      rw [List.mapM_cons] at done
      obtain ⟨result, first, done⟩ := ok_of_bind done
      obtain ⟨others, further, done⟩ := ok_of_bind done
      cases done
      exact .cons first (ih further)
  · intro each
    induction each with
    | nil => rfl
    | cons own _ ih =>
      rw [List.mapM_cons, own, ih]
      rfl

theorem mapM_eq_some {f : α → Option β} {values : List β} :
    items.mapM f = some values ↔
      List.Forall₂ (fun item value => f item = some value) items values := by
  constructor
  · intro done
    induction items generalizing values with
    | nil =>
      cases done
      exact .nil
    | cons item rest ih =>
      simp only [List.mapM_cons, bind, Option.bind_eq_some_iff] at done
      obtain ⟨first, own, others, further, last⟩ := done
      cases last
      exact .cons own (ih further)
  · intro each
    induction each with
    | nil => rfl
    | cons own _ ih =>
      rw [List.mapM_cons, own, ih]
      rfl

theorem mapM_ok {f : α → Except ε β} (each : ∀ item ∈ items, ∃ result, f item = .ok result) :
    ∃ results, items.mapM f = .ok results := by
  induction items with
  | nil => exact ⟨[], rfl⟩
  | cons item rest ih =>
    obtain ⟨⟨result, own⟩, more⟩ := List.forall_mem_cons.mp each
    obtain ⟨results, further⟩ := ih more
    exact ⟨result :: results, mapM_eq_ok.mpr (.cons own (mapM_eq_ok.mp further))⟩

theorem mapM_some {f : α → Option β} (each : ∀ item ∈ items, ∃ value, f item = some value) :
    ∃ values, items.mapM f = some values := by
  induction items with
  | nil => exact ⟨[], rfl⟩
  | cons item rest ih =>
    obtain ⟨⟨value, own⟩, more⟩ := List.forall_mem_cons.mp each
    obtain ⟨values, further⟩ := ih more
    exact ⟨value :: values, mapM_eq_some.mpr (.cons own (mapM_eq_some.mp further))⟩

theorem mem_of_mapM {f : α → Option β} {values : List β} (done : items.mapM f = some values)
    (value : β) : value ∈ values ↔ ∃ item ∈ items, f item = some value := by
  have each := mapM_eq_some.mp done
  constructor
  · exact exists_of_forall₂ each
  · rintro ⟨item, member, found⟩
    obtain ⟨other, listed, found'⟩ := exists_of_forall₂ each.flip member
    cases found.symm.trans found'
    exact listed

/-- A computation that goes through carries another one along that goes through with it. -/
theorem mapM_some_of_ok {f : α → Except ε β} {g : α → Option γ} {relates : β → γ → Prop}
    {results : List β} (each : ∀ item ∈ items, ∀ result, f item = .ok result →
      ∃ value, g item = some value ∧ relates result value)
    (done : items.mapM f = .ok results) :
    ∃ values, items.mapM g = some values ∧ List.Forall₂ relates results values := by
  have own := mapM_eq_ok.mp done
  clear done
  induction own with
  | nil => exact ⟨[], rfl, .nil⟩
  | @cons item result rest results first _ ih =>
    obtain ⟨here, more⟩ := List.forall_mem_cons.mp each
    obtain ⟨value, found, same⟩ := here result first
    obtain ⟨values, others, related⟩ := ih more
    exact ⟨value :: values, mapM_eq_some.mpr (.cons found (mapM_eq_some.mp others)),
      .cons same related⟩

end HdlPorts
