import HdlPorts.Bits.Logic

/-! A 64-bit word as thirty-two lanes of two bits, lowest lane first.

Reading a word as lanes and writing lanes as a word are inverse, so a statement about a packed
word is a statement about a list of thirty-two bits.
-/

set_option autoImplicit false

namespace HdlPorts.Word

def lanes : Nat := 32

/-- The number whose base-four digits are the codes of `bits`, lowest first. -/
def code : List Logic → Nat
  | [] => 0
  | bit :: rest => bit.code + 4 * code rest

/-- The word holding `bits` in its lowest lanes and `0` in the others. -/
def ofLanes (bits : List Logic) : UInt64 := UInt64.ofNat (code bits)

/-- The lowest `count` base-four digits of `number` as bits. -/
def digits : Nat → Nat → List Logic
  | 0, _ => []
  | count + 1, number => Logic.ofCode (number % 4) :: digits count (number / 4)

def toLanes (word : UInt64) : List Logic := digits lanes word.toNat

def lane (word : UInt64) (index : Nat) : Logic := Logic.ofCode (word.toNat >>> (2 * index) % 4)

def setLane (word : UInt64) (index : Nat) (bit : Logic) : UInt64 :=
  ofLanes ((toLanes word).set index bit)

@[simp] theorem length_digits (count number : Nat) : (digits count number).length = count := by
  induction count generalizing number with
  | zero => rfl
  | succ count ih => simp [digits, ih]

@[simp] theorem length_toLanes (word : UInt64) : (toLanes word).length = lanes :=
  length_digits _ _

theorem getElem?_digits {count index : Nat} (number : Nat) (h : index < count) :
    (digits count number)[index]? = some (Logic.ofCode (number >>> (2 * index) % 4)) := by
  induction count generalizing number index with
  | zero => omega
  | succ count ih =>
    cases index with
    | zero => simp [digits]
    | succ index =>
      have quarter : number / 4 = number >>> 2 := (Nat.shiftRight_eq_div_pow number 2).symm
      rw [digits, List.getElem?_cons_succ, ih _ (by omega), quarter, ← Nat.shiftRight_add,
        Nat.mul_succ, Nat.add_comm 2]

theorem getElem?_toLanes (word : UInt64) {index : Nat} (h : index < lanes) :
    (toLanes word)[index]? = some (lane word index) :=
  getElem?_digits _ h

theorem code_lt (bits : List Logic) : code bits < Nat.pow 4 bits.length := by
  induction bits with
  | nil => exact Nat.one_pos
  | cons bit rest ih =>
    have := bit.code_lt
    change bit.code + 4 * code rest < Nat.pow 4 rest.length * 4
    omega

/-- Reading back as many digits as there are bits, or more, gives the bits and then zeros. -/
theorem digits_code {count : Nat} (bits : List Logic) (h : bits.length ≤ count) :
    digits count (code bits) = bits ++ List.replicate (count - bits.length) .zero := by
  induction count generalizing bits with
  | zero =>
    cases bits with
    | nil => rfl
    | cons bit rest => simp at h
  | succ count ih =>
    cases bits with
    | nil =>
      have := ih [] (by simp)
      simp only [code, List.length_nil, Nat.sub_zero, List.nil_append] at this
      simp [digits, code, this, Logic.ofCode, List.replicate_succ]
    | cons bit rest =>
      have hb := bit.code_lt
      have h4 : (bit.code + 4 * code rest) % 4 = bit.code := by omega
      have hd : (bit.code + 4 * code rest) / 4 = code rest := by omega
      simp only [List.length_cons] at h
      simp [digits, code, h4, hd, ih rest (by omega)]

theorem toLanes_ofLanes (bits : List Logic) (h : bits.length ≤ lanes) :
    toLanes (ofLanes bits) = bits ++ List.replicate (lanes - bits.length) .zero := by
  have small : code bits < UInt64.size :=
    Nat.lt_of_lt_of_le (code_lt bits) (Nat.pow_le_pow_right (by decide) h)
  have : (ofLanes bits).toNat = code bits := by
    simp only [ofLanes, UInt64.toNat_ofNat']
    exact Nat.mod_eq_of_lt small
  rw [toLanes, this, digits_code bits h]

end HdlPorts.Word
