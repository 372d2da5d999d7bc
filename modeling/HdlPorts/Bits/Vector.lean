import HdlPorts.Fault
import HdlPorts.Bits.Word

/-! Vectors of four-state bits, packed thirty-two to a word, lowest bit first.

A vector is a width and a list of words. Nothing forces the two to agree: a vector that was read
from a document may have words to spare, bits set above its width, or too few words. `bits` is the
meaning of a vector, and reading one that ends too early is a fault. A vector made by `ofBits` has
exactly the words it needs and nothing above its width; every operation that makes a new vector
makes it that way.
-/

set_option autoImplicit false

namespace HdlPorts

structure LogicVector where
  width : Nat
  words : List UInt64
  deriving DecidableEq

namespace LogicVector

def wordsFor (width : Nat) : Nat := (width + (Word.lanes - 1)) / Word.lanes

/-- The first `count` words of `bits`. -/
def pack : Nat → List Logic → List UInt64
  | 0, _ => []
  | count + 1, bits => Word.ofLanes (bits.take Word.lanes) :: pack count (bits.drop Word.lanes)

def ofBits (bits : List Logic) : LogicVector := ⟨bits.length, pack (wordsFor bits.length) bits⟩

/-- The bits below the width that the words do hold. -/
def readable (v : LogicVector) : List Logic := (v.words.flatMap Word.toLanes).take v.width

/-- There is a word for every bit below the width. -/
def Complete (v : LogicVector) : Prop := v.width ≤ Word.lanes * v.words.length

instance (v : LogicVector) : Decidable v.Complete := inferInstanceAs (Decidable (_ ≤ _))

/-- All bits, lowest first. -/
def bits (v : LogicVector) : Checked (List Logic) :=
  if v.Complete then .ok v.readable else .error .missingWord

def get (v : LogicVector) (index : Nat) : Checked Logic :=
  if index < v.width then
    match v.words[index / Word.lanes]? with
    | some word => .ok (Word.lane word (index % Word.lanes))
    | none => .error .missingWord
  else
    .error (.bitOutOfRange index v.width)

def set (v : LogicVector) (index : Nat) (bit : Logic) : Checked LogicVector :=
  if index < v.width then
    match v.words[index / Word.lanes]? with
    | some word =>
      .ok { v with
        words := v.words.set (index / Word.lanes) (Word.setLane word (index % Word.lanes) bit) }
    | none => .error .missingWord
  else
    .error (.bitOutOfRange index v.width)

def filled (width : Nat) (bit : Logic) : LogicVector := ofBits (List.replicate width bit)

def zeros (width : Nat) : LogicVector := filled width .zero

/-- Every word is zero. Looks at the words as they are, above the width too. -/
def isZero (v : LogicVector) : Bool := v.words.all (· == 0)

/-- Some bit is `x` or `z`. Reads from the lowest bit up to the first such bit. -/
def hasUnknown (v : LogicVector) : Checked Bool :=
  if v.readable.any (fun bit => !bit.isKnown) then .ok true
  else if v.Complete then .ok false
  else .error .missingWord

@[simp] theorem width_ofBits (bits : List Logic) : (ofBits bits).width = bits.length := rfl

@[simp] theorem length_pack (count : Nat) (bits : List Logic) :
    (pack count bits).length = count := by
  induction count generalizing bits with
  | zero => rfl
  | succ count ih => simp [pack, ih]

theorem le_lanes_mul_wordsFor (width : Nat) : width ≤ Word.lanes * wordsFor width := by
  simp only [wordsFor, Word.lanes]
  omega

/-- Unpacking packed bits gives the bits followed by zeros up to the end of the last word. -/
theorem flatMap_toLanes_pack {count : Nat} {bits : List Logic}
    (h : bits.length ≤ Word.lanes * count) :
    (pack count bits).flatMap Word.toLanes =
      bits ++ List.replicate (Word.lanes * count - bits.length) .zero := by
  induction count generalizing bits with
  | zero =>
    cases bits with
    | nil => rfl
    | cons bit rest => simp at h
  | succ count ih =>
    have rest : (bits.drop Word.lanes).length ≤ Word.lanes * count := by
      simp only [List.length_drop, Word.lanes] at h ⊢
      omega
    rw [pack, List.flatMap_cons, ih rest, Word.toLanes_ofLanes _ (List.length_take_le _ _)]
    by_cases short : bits.length ≤ Word.lanes
    · rw [List.take_of_length_le short, List.drop_of_length_le short, List.append_assoc]
      simp only [List.length_nil, List.nil_append, Nat.sub_zero, List.replicate_append_replicate]
      congr 2
      simp only [Word.lanes] at short ⊢
      omega
    · have full : (bits.take Word.lanes).length = Word.lanes := by
        simp only [List.length_take]
        omega
      rw [full, Nat.sub_self, List.replicate_zero, List.append_nil, ← List.append_assoc,
        List.take_append_drop]
      congr 2
      simp only [List.length_drop, Word.lanes] at short ⊢
      omega

theorem complete_ofBits (bits : List Logic) : (ofBits bits).Complete := by
  simp only [Complete, ofBits, length_pack]
  exact le_lanes_mul_wordsFor _

/-- A vector holds the bits it was made of. -/
@[simp] theorem bits_ofBits (bits : List Logic) : (ofBits bits).bits = .ok bits := by
  rw [LogicVector.bits, if_pos (complete_ofBits bits), readable]
  simp only [ofBits]
  rw [flatMap_toLanes_pack (le_lanes_mul_wordsFor _), List.take_left]

end LogicVector

end HdlPorts
