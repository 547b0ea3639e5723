/-!
# Outcomes

Computations that can be refused return `Except`; two outcomes can be compared when their
values and their refusals can.
-/

set_option autoImplicit false

namespace Proctor

instance decideOutcome {ε α : Type} [DecidableEq ε] [DecidableEq α] : DecidableEq (Except ε α)
  | .ok a, .ok b => decidable_of_iff (a = b) (by simp)
  | .error a, .error b => decidable_of_iff (a = b) (by simp)
  | .ok _, .error _ => .isFalse (by simp)
  | .error _, .ok _ => .isFalse (by simp)

/-- What succeeds in two steps succeeds in each. -/
theorem exists_of_bind_eq_ok {ε α β : Type} {x : Except ε α} {f : α → Except ε β} {b : β} (eq : x >>= f = .ok b) :
    ∃ a, x = .ok a ∧ f a = .ok b := by
  cases x with
  | error e => cases eq
  | ok a => exact ⟨a, rfl, eq⟩

end Proctor
