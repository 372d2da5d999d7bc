import HdlPorts.Fault

/-! How attempts compose.

Three properties of an attempt carry over from its parts to the whole. `Persists` compares it with
the same attempt at a later time, when more names are known: whatever has a result now keeps it.
`Safe` says that no fault is met and what holds of the value, if there is one. `Related` compares it
with another attempt that goes through the same parts on related data.
-/

set_option autoImplicit false

namespace HdlPorts

/-- A sequence has a result only if its first part has one. -/
theorem ok_of_bind {ε α β : Type} {first : Except ε α} {rest : α → Except ε β} {result : β}
    (done : first >>= rest = .ok result) :
    ∃ value, first = .ok value ∧ rest value = .ok result := by
  cases first with
  | error stop => cases done
  | ok value => exact ⟨value, rfl, done⟩

theorem ok_of_map {ε α β : Type} {first : Except ε α} {f : α → β} {result : β}
    (done : first.map f = .ok result) : ∃ value, first = .ok value ∧ f value = result := by
  cases first with
  | error stop => cases done
  | ok value => exact ⟨value, rfl, Except.ok.inj done⟩

namespace Attempt

variable {ε α β : Type}

theorem ok_of_ofChecked {checked : Checked α} {result : α}
    (done : (ofChecked checked : Attempt ε α) = .ok result) : checked = .ok result := by
  cases checked with
  | error fault => cases done
  | ok value =>
    cases done
    rfl

/-- The attempt ends in a value or a refusal. -/
def Unbroken (attempt : Attempt ε α) : Prop := ∀ fault, attempt ≠ .error (.broken fault)

/-- What has a result now has the same result later. -/
def Persists (now later : Attempt ε α) : Prop := now.Unbroken → later = now

/-- No fault is met, and a value has the property. A refusal is as good as any. -/
def Safe (post : α → Prop) : Attempt ε α → Prop
  | .ok value => post value
  | .error (.refused _) => True
  | .error (.broken _) => False

/-- Both attempts end in related values, in refusals for related reasons, or in the same fault. -/
inductive Related {δ : Type} (values : α → β → Prop) (reasons : ε → δ → Prop) :
    Attempt ε α → Attempt δ β → Prop where
  | ok {value : α} {other : β} : values value other → Related values reasons (.ok value) (.ok other)
  | refused {reason : ε} {other : δ} : reasons reason other →
      Related values reasons (.error (.refused reason)) (.error (.refused other))
  | broken {fault : Fault} :
      Related values reasons (.error (.broken fault)) (.error (.broken fault))

theorem unbroken_ok (value : α) : Unbroken (.ok value : Attempt ε α) := by
  intro fault same
  cases same

theorem unbroken_refuse (reason : ε) : Unbroken (refuse reason : Attempt ε α) := by
  intro fault same
  cases same

theorem Persists.refl (attempt : Attempt ε α) : attempt.Persists attempt := fun _ => rfl

theorem Persists.bind {now later : Attempt ε α} {f g : α → Attempt ε β}
    (first : now.Persists later) (rest : ∀ value, (f value).Persists (g value)) :
    (now >>= f).Persists (later >>= g) := by
  intro unbroken
  cases now with
  | ok value =>
    rw [first (unbroken_ok value)]
    exact rest value unbroken
  | error stop =>
    cases stop with
    | broken fault => exact absurd rfl (unbroken fault)
    | refused reason =>
      rw [first (unbroken_refuse reason)]
      rfl

theorem Safe.unbroken {attempt : Attempt ε α} {post : α → Prop} (safe : attempt.Safe post) :
    attempt.Unbroken := by
  intro fault same
  rw [same] at safe
  exact safe

theorem Safe.bind {attempt : Attempt ε α} {f : α → Attempt ε β} {mid : α → Prop}
    {post : β → Prop} (safe : attempt.Safe mid) (rest : ∀ value, mid value → (f value).Safe post) :
    (attempt >>= f).Safe post := by
  cases attempt with
  | ok value => exact rest value safe
  | error stop =>
    cases stop with
    | broken fault => exact safe
    | refused reason => exact safe

theorem Safe.ofChecked {checked : Checked α} {post : α → Prop} {value : α}
    (result : checked = .ok value) (holds : post value) :
    (Attempt.ofChecked checked : Attempt ε α).Safe post := by
  rw [result]
  exact holds

theorem Safe.mapReason {δ : Type} {attempt : Attempt ε α} {post : α → Prop}
    (safe : attempt.Safe post) (f : ε → δ) : (attempt.mapReason f).Safe post := by
  cases attempt with
  | ok value => exact safe
  | error stop =>
    cases stop with
    | broken fault => exact safe
    | refused reason => exact safe

theorem Related.error {values : α → β → Prop} (stop : Stop ε) :
    Related values Eq (.error stop : Attempt ε α) (.error stop) := by
  cases stop with
  | broken fault => exact .broken
  | refused reason => exact .refused rfl

theorem Related.ofChecked {δ : Type} {values : α → β → Prop} {reasons : ε → δ → Prop}
    {first : Checked α} {second : Checked β} {value : α} {other : β} (result : first = .ok value)
    (result' : second = .ok other) (holds : values value other) :
    Related values reasons (Attempt.ofChecked first) (Attempt.ofChecked second) := by
  rw [result, result']
  exact .ok holds

theorem Related.bind {δ α' β' : Type} {values : α → α' → Prop} {results : β → β' → Prop}
    {reasons : ε → δ → Prop} {first : Attempt ε α} {second : Attempt δ α'} {f : α → Attempt ε β}
    {g : α' → Attempt δ β'} (related : Related values reasons first second)
    (rest : ∀ value other, values value other → Related results reasons (f value) (g other)) :
    Related results reasons (first >>= f) (second >>= g) := by
  cases related with
  | ok same => exact rest _ _ same
  | refused same => exact .refused same
  | broken => exact .broken

theorem Related.map {δ α' β' : Type} {values : α → α' → Prop} {results : β → β' → Prop}
    {reasons : ε → δ → Prop} {first : Attempt ε α} {second : Attempt δ α'} {f : α → β}
    {g : α' → β'} (related : Related values reasons first second)
    (each : ∀ value other, values value other → results (f value) (g other)) :
    Related results reasons (first.map f) (second.map g) := by
  cases related with
  | ok same => exact .ok (each _ _ same)
  | refused same => exact .refused same
  | broken => exact .broken

end Attempt

/-- Both computations have related results, or both meet the same fault. -/
inductive Checked.Related {α β : Type} (values : α → β → Prop) : Checked α → Checked β → Prop where
  | ok {value : α} {other : β} : values value other → Related values (.ok value) (.ok other)
  | error {fault : Fault} : Related values (.error fault) (.error fault)

theorem Checked.Related.imp {α β : Type} {values results : α → β → Prop} {first : Checked α}
    {second : Checked β} (related : Related values first second)
    (each : ∀ value other, values value other → results value other) :
    Related results first second := by
  cases related with
  | ok same => exact .ok (each _ _ same)
  | error => exact .error

theorem Checked.Related.bind {α α' β β' : Type} {values : α → α' → Prop} {results : β → β' → Prop}
    {first : Checked α} {second : Checked α'} {f : α → Checked β} {g : α' → Checked β'}
    (related : Related values first second)
    (rest : ∀ value other, values value other → Related results (f value) (g other)) :
    Related results (first >>= f) (second >>= g) := by
  cases related with
  | ok same => exact rest _ _ same
  | error => exact .error

end HdlPorts
