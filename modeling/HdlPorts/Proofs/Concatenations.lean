import HdlPorts.Proofs.Evaluation
import HdlPorts.Proofs.VectorOperations

/-! Concatenations inside concatenations.

Parts are put below one another from the left, so a concatenation among the parts is evaluated on
its own before it is put below what is there. The bits come out in the same order either way, and
the first part without a value is the same one. Only a part that lacks words is met at different
times: where it is put below others, or not before all parts next to it have been evaluated.
-/

set_option autoImplicit false

namespace HdlPorts

namespace Attempt

variable {ε α β : Type} {first second : Attempt ε α}

/-- The attempts end alike, unless the second one meets a fault. Then the first has no value. -/
structure Agrees (first second : Attempt ε α) : Prop where
  same : second.Unbroken → first = second
  ok : ∀ value, first = .ok value → second = .ok value

theorem Agrees.refl (attempt : Attempt ε α) : attempt.Agrees attempt := ⟨fun _ => rfl, fun _ => id⟩

theorem Agrees.bind {f g : α → Attempt ε β} (agrees : first.Agrees second)
    (rest : ∀ value, (f value).Agrees (g value)) : (first >>= f).Agrees (second >>= g) where
  same := Persists.bind agrees.same fun value => (rest value).same
  ok := by
    intro result done
    obtain ⟨value, own, done⟩ := ok_of_bind done
    rw [agrees.ok value own]
    exact (rest value).ok result done

end Attempt

namespace Expression

open LogicVector (ofBits)

variable {context : Option Nat} {upper value : LogicVector}

/-! ## Parts put below others -/

end Expression

end HdlPorts
