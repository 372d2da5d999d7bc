import HdlPorts.Json.Shape
import HdlPorts.Proofs.Traversals
import Mathlib.Logic.Basic

/-! Documents of values, and the depth at which they can be read.

A document is nested as deep as the arrays and objects in it. A value is decoded from its document
wherever the depth that is left is enough for the nesting, and not decoded anywhere else. This is
shown for the shapes that documents are put together from: lists, records and choices.
-/

set_option autoImplicit false

namespace HdlPorts.Json

mutual

/-- How many arrays and objects stand inside one another. -/
def nesting : Json → Nat
  | array items => itemsNesting items + 1
  | object members => membersNesting members + 1
  | _ => 0

def itemsNesting : List Json → Nat
  | [] => 0
  | item :: rest => max (nesting item) (itemsNesting rest)

def membersNesting : List (Option String × Json) → Nat
  | [] => 0
  | (_, value) :: rest => max (nesting value) (membersNesting rest)

end

variable {α β : Type} {decode : Nat → Json → Option α}

@[simp] theorem nesting_natural (number : Nat) : (natural number).nesting = 0 := rfl

@[simp] theorem nesting_text (value : String) : (text value).nesting = 0 := rfl

@[simp] theorem nesting_bool (value : Bool) : (bool value).nesting = 0 := rfl

@[simp] theorem nesting_null : null.nesting = 0 := rfl

/-- The value is decoded from the document where the depth is enough for it, and nowhere else. -/
def Decodes (decode : Nat → Json → Option α) (json : Json) (value : α) : Prop :=
  ∀ depth, decode depth json = if json.nesting ≤ depth then some value else none

@[simp] theorem bind_if {p : Prop} [Decidable p] (value : α) (f : α → Option β) :
    (if p then some value else none).bind f = if p then f value else none := by
  split <;> rfl

@[simp] theorem map_if {p : Prop} [Decidable p] (value : α) (f : α → β) :
    (if p then some value else none).map f = if p then some (f value) else none := by
  split <;> rfl

/-! ## Numbers -/

theorem below?_natural {limit number : Nat} (small : number < limit) :
    (natural number).below? limit = some number :=
  if_pos small

@[simp] theorem uint8?_toNat (word : UInt8) : (natural word.toNat).uint8? = some word := by
  rw [uint8?, below?_natural word.toNat_lt_size, Option.map_some, UInt8.ofNat_toNat]

@[simp] theorem uint32?_toNat (word : UInt32) : (natural word.toNat).uint32? = some word := by
  rw [uint32?, below?_natural word.toNat_lt_size, Option.map_some, UInt32.ofNat_toNat]

@[simp] theorem uint64?_toNat (word : UInt64) : (natural word.toNat).uint64? = some word := by
  rw [uint64?, below?_natural word.toNat_lt_size, Option.map_some, UInt64.ofNat_toNat]

/-! ## Lists -/

theorem mapM_decode {encode : α → Json} {items : List α}
    (each : ∀ item ∈ items, Decodes decode (encode item) item) (depth : Nat) :
    (items.map encode).mapM (decode depth) =
      if itemsNesting (items.map encode) ≤ depth then some items else none := by
  induction items with
  | nil => simp [itemsNesting]
  | cons item items ih =>
    have own := each item List.mem_cons_self depth
    have others := ih fun item member => each item (List.mem_cons_of_mem _ member)
    simp only [List.map_cons, List.mapM_cons, own, others, bind, bind_if, itemsNesting, Nat.max_le,
      ite_and]
    rfl

@[simp] theorem nesting_ofList (encode : α → Json) (items : List α) (depth : Nat) :
    (ofList encode items).nesting ≤ depth + 1 ↔ ∀ item ∈ items, (encode item).nesting ≤ depth := by
  rw [ofList, nesting, Nat.add_le_add_iff_right]
  induction items with
  | nil => simp [itemsNesting]
  | cons item items ih => simp only [List.map_cons, itemsNesting, Nat.max_le, ih, List.forall_mem_cons]

theorem decodes_ofList {encode : α → Json} {items : List α}
    (each : ∀ item ∈ items, Decodes decode (encode item) item) :
    Decodes (list? decode) (ofList encode items) items := by
  intro depth
  cases depth with
  | zero => rfl
  | succ depth =>
    simp only [ofList, list?, nesting, Nat.add_le_add_iff_right]
    exact mapM_decode each depth

/-! ## Records -/

@[simp] theorem nesting_fields_ne_zero (members : List (String × Json)) :
    (fields members).nesting ≠ 0 :=
  Nat.succ_ne_zero _

@[simp] theorem nesting_fields (members : List (String × Json)) (depth : Nat) :
    (fields members).nesting ≤ depth + 1 ↔ ∀ member ∈ members, member.2.nesting ≤ depth := by
  rw [fields, nesting, Nat.add_le_add_iff_right]
  induction members with
  | nil => simp [membersNesting]
  | cons member members ih => simp only [List.map_cons, membersNesting, Nat.max_le, ih, List.forall_mem_cons]

theorem named?_fields (members : List (String × Json)) :
    named? (members.map fun (key, value) => (some key, value)) = some members := by
  induction members with
  | nil => rfl
  | cons member members ih => rw [List.map_cons, named?, ih, Option.map_some]

/-- A field is looked up by its key, which no other field has. -/
theorem field?_of_mem {members : List (String × Json)} (distinct : (members.map Prod.fst).Nodup)
    {member : String × Json} (listed : member ∈ members) :
    field? members member.1 = some (some member.2) := by
  have alone : members.filter (·.1 == member.1) = [member] := by
    induction members with
    | nil => cases listed
    | cons first others ih =>
      obtain ⟨fresh, distinct⟩ := List.nodup_cons.mp distinct
      rcases List.mem_cons.mp listed with rfl | listed
      · have none : others.filter (·.1 == member.1) = [] := by
          refine List.filter_eq_nil_iff.mpr fun other listed same => fresh ?_
          exact List.mem_map.mpr ⟨other, listed, eq_of_beq same⟩
        rw [List.filter_cons, if_pos (beq_self_eq_true _), none]
      · have other : ¬ (first.1 == member.1) = true := fun same =>
          fresh (List.mem_map.mpr ⟨member, listed, (eq_of_beq same).symm⟩)
        rw [List.filter_cons, if_neg other, ih distinct listed]
  rw [field?, alone]

theorem fields?_fields {keys : List String} {members : List (String × Json)}
    (same : members.map Prod.fst = keys) (distinct : keys.Nodup) :
    (fields members).fields? keys = some (members.map fun member => some member.2) := by
  subst same
  simp only [fields, fields?, named?_fields, bind, Option.bind_some, mapM_eq_some,
    List.forall₂_map_left_iff, List.forall₂_map_right_iff, List.forall₂_same]
  exact fun member listed => field?_of_mem distinct listed

theorem record?_fields {keys : List String} {members : List (String × Json)}
    (same : members.map Prod.fst = keys) (distinct : keys.Nodup) (depth : Nat) :
    (fields members).record? keys (depth + 1) =
      some (depth, members.map fun member => some member.2) := by
  rw [record?, fields?_fields same distinct, Option.map_some]

/-- A record takes one off the depth, and then each of its fields has to fit. -/
theorem decodes_record {keys : List String} {members : List (String × Json)}
    {read : Nat × List (Option Json) → Option α} {value : α}
    (same : members.map Prod.fst = keys) (distinct : keys.Nodup)
    (whole : ∀ depth, read (depth, members.map fun member => some member.2) =
      if ∀ member ∈ members, member.2.nesting ≤ depth then some value else none) :
    Decodes (fun depth json => json.record? keys depth >>= read) (fields members) value := by
  intro depth
  cases depth with
  | zero => exact (if_neg (Nat.not_succ_le_zero _)).symm
  | succ depth =>
    simp only [record?_fields same distinct, bind, Option.bind_some, nesting_fields]
    exact whole depth

/-- A field that may be missing is written as null where it is. -/
theorem optional?_orNull {encode : α → Json} {value : Option α}
    (each : ∀ item ∈ value, encode item ≠ null ∧ Decodes decode (encode item) item) (depth : Nat) :
    optional? decode depth (some (orNull encode value)) =
      if (orNull encode value).nesting ≤ depth then some value else none := by
  cases value with
  | none => simp [orNull, optional?]
  | some item =>
    obtain ⟨present, own⟩ := each item rfl
    rw [orNull, optional?, own depth, map_if]
    exact present

/-! ## Choices -/

/-- The tags are told apart by what they stand for. -/
theorem decodes_tag {tag : α → String} {ofTag? : String → Option α}
    (back : ∀ value, ofTag? (tag value) = some value) (value : α) :
    Decodes (fun depth json => json.tag? depth >>= ofTag?) (text (tag value)) value := by
  intro depth
  have read : (text (tag value)).tag? depth = some (tag value) := by
    cases depth <;> rfl
  simp only [read]
  exact (back value).trans (if_pos (Nat.zero_le depth)).symm

@[simp] theorem choice?_tagged (tag : String) (value : Json) (depth : Nat) :
    (tagged tag value).choice? (depth + 1) = some (depth, tag, some value) :=
  rfl

@[simp] theorem nesting_tagged (tag : String) (value : Json) :
    (tagged tag value).nesting = value.nesting + 1 := by
  simp [tagged, fields, nesting, membersNesting]

end HdlPorts.Json
