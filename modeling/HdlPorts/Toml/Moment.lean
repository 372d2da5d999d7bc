/-! Dates and times.

A date is a day there is; a time has minutes and seconds, possibly with a fraction. Both together
may be followed by an offset. Only whether something is a date or time is decided here.
-/

set_option autoImplicit false

namespace HdlPorts.Toml

/-- The number written by two characters, both digits. -/
def pair? (tens ones : Char) : Option Nat :=
  if tens.isDigit && ones.isDigit then some (Nat.ofDigitChars 10 [tens, ones] 0) else none

def isLeapYear (year : Nat) : Bool :=
  year % 4 == 0 && (year % 100 != 0 || year % 400 == 0)

/-- Days of a month, which counts from one. -/
def daysIn (year month : Nat) : Nat :=
  match month with
  | 2 => if isLeapYear year then 29 else 28
  | 4 | 6 | 9 | 11 => 30
  | _ => 31

/-- What follows a date. -/
def date? : List Char → Option (List Char)
  | y₁ :: y₂ :: y₃ :: y₄ :: '-' :: m₁ :: m₂ :: '-' :: d₁ :: d₂ :: rest => do
    let century ← pair? y₁ y₂
    let year ← pair? y₃ y₄
    let month ← pair? m₁ m₂
    let day ← pair? d₁ d₂
    if 1 ≤ month ∧ month ≤ 12 ∧ 1 ≤ day ∧ day ≤ daysIn (100 * century + year) month then
      some rest
    else
      none
  | _ => none

/-- What follows the fraction of a second, if there is one. -/
def secondFraction? : List Char → Option (List Char)
  | '.' :: rest =>
    if (rest.takeWhile Char.isDigit).isEmpty then none else some (rest.dropWhile Char.isDigit)
  | chars => some chars

/-- What follows hours and minutes. -/
def clock? : List Char → Option (List Char)
  | h₁ :: h₂ :: ':' :: m₁ :: m₂ :: rest => do
    let hour ← pair? h₁ h₂
    let minute ← pair? m₁ m₂
    if hour ≤ 23 ∧ minute ≤ 59 then some rest else none
  | _ => none

/-- What follows a time. A minute may have a leap second. -/
def time? (chars : List Char) : Option (List Char) := do
  let rest ← clock? chars
  match rest with
  | ':' :: s₁ :: s₂ :: rest =>
    let second ← pair? s₁ s₂
    if second ≤ 60 then secondFraction? rest else none
  | _ => none

/-- What follows the offset from universal time, if there is one. -/
def offset? : List Char → Option (List Char)
  | 'Z' :: rest | 'z' :: rest => some rest
  | '+' :: rest | '-' :: rest => clock? rest
  | chars => some chars

def isTimeOfDay (chars : List Char) : Bool := (time? chars >>= offset?) == some []

def isDate (chars : List Char) : Bool := date? chars == some []

def isMoment (chars : List Char) : Bool :=
  match date? chars with
  | some [] => true
  | some ('T' :: rest) | some ('t' :: rest) => isTimeOfDay rest
  | some _ => false
  | none => time? chars == some []

end HdlPorts.Toml
