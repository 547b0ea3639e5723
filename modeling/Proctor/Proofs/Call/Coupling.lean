import Proctor.Call
import Mathlib.Data.List.Forall2
import Mathlib.Data.Option.Basic

/-!
# Two calls side by side

Two calls are carried out alone, each from a state of its own. `Call.Couples` says that if a relation
holds between the states when they begin, then it holds when they have ended, and both give
values that belong together or fail with the same error. Calls that are put together from parts
that do so do so too (`couples_bind`).
-/

set_option autoImplicit false

namespace Proctor.Call

variable {α β γ δ σ : Type}

/-- Both are values with `like`, or both are the same error. -/
inductive Agree (like : α → β → Prop) : Except Error α → Except Error β → Prop where
  | ok {a : α} {b : β} (alike : like a b) : Agree like (.ok a) (.ok b)
  | error (e : Error) : Agree like (.error e) (.error e)

theorem Agree.refl {like : α → α → Prop} (same : ∀ a, like a a) (r : Except Error α) : Agree like r r := by
  cases r with
  | ok a => exact .ok (same a)
  | error e => exact .error e

theorem Agree.bind {like : α → β → Prop} {wide : γ → δ → Prop} {r : Except Error α} {r' : Except Error β} {f : α → Except Error γ}
    {g : β → Except Error δ} (h : Agree like r r') (next : ∀ a b, like a b → Agree wide (f a) (g b)) : Agree wide (r >>= f) (r' >>= g) := by
  cases h with
  | ok alike => exact next _ _ alike
  | error e => exact .error e

/-- Of one list, element by element. -/
theorem agree_mapM {like : β → γ → Prop} {f : α → Except Error β} {g : α → Except Error γ} (each : ∀ a, Agree like (f a) (g a))
    (l : List α) : Agree (List.Forall₂ like) (l.mapM f) (l.mapM g) := by
  induction l with
  | nil => exact .ok .nil
  | cons a l ih =>
    rw [List.mapM_cons, List.mapM_cons]
    exact (each a).bind fun b c alike => ih.bind fun bs cs others => .ok (.cons alike others)

theorem Agree.eq {P : α → Prop} {r r' : Except Error α} (h : Agree (fun a b => a = b ∧ P a) r r') : r = r' := by
  cases h with
  | ok alike => rw [alike.1]
  | error e => rfl

/-- From states with `rel`, the two calls come to outcomes that agree, in states with `rel`. -/
def Couples (handle : Handler σ) (rel : σ → σ → Prop) (like : α → β → Prop) (c : Call α) (d : Call β) : Prop :=
  ∀ v w, rel v w → Agree like (c.run handle v).1 (d.run handle w).1 ∧ rel (c.run handle v).2 (d.run handle w).2

section Rules

variable {handle : Handler σ} {rel : σ → σ → Prop}

theorem couples_pure {like : α → β → Prop} {a : α} {b : β} (alike : like a b) : Couples handle rel like (pure a) (pure b) :=
  fun _ _ related => ⟨.ok alike, related⟩

theorem couples_failed {like : α → β → Prop} (e : Error) : Couples handle rel like (failed e) (failed e) :=
  fun _ _ related => ⟨.error e, related⟩

theorem couples_ofExcept {like : α → β → Prop} {r : Except Error α} {r' : Except Error β} (h : Agree like r r') :
    Couples handle rel like (ofExcept r) (ofExcept r') := by
  cases h with
  | ok alike => exact couples_pure alike
  | error e => exact couples_failed e

theorem couples_orFail {like : α → β → Prop} {a? : Option α} {b? : Option β} (e : Error) (h : Option.Rel like a? b?) :
    Couples handle rel like (orFail e a?) (orFail e b?) := by
  cases h with
  | some alike => exact couples_pure alike
  | none => exact couples_failed e

/-- Two accesses, each on its own. -/
theorem couples_ask {q q' : Access} {like : q.Answer → q'.Answer → Prop}
    (h : ∀ v w, rel v w → Agree like (handle q v).1 (handle q' w).1 ∧ rel (handle q v).2 (handle q' w).2) :
    Couples handle rel like (ask q) (ask q') := by
  have outcome : ∀ (p : Access) v, (ask p).run handle v = handle p v := by
    intro p v
    rw [ask, run]
    split <;> rename_i eq <;> exact eq.symm
  intro v w related
  rw [outcome, outcome]
  exact h v w related

theorem couples_bind {like : α → β → Prop} {wide : γ → δ → Prop} {c : Call α} {d : Call β} {f : α → Call γ} {g : β → Call δ}
    (first : Couples handle rel like c d) (second : ∀ a b, like a b → Couples handle rel wide (f a) (g b)) :
    Couples handle rel wide (c >>= f) (d >>= g) := by
  intro v w related
  obtain ⟨agree, after⟩ := first v w related
  rw [run_bind, run_bind]
  generalize c.run handle v = r at agree after
  generalize d.run handle w = r' at agree after
  obtain ⟨r, v'⟩ := r
  obtain ⟨r', w'⟩ := r'
  cases agree with
  | ok alike => exact second _ _ alike v' w' after
  | error e => exact ⟨.error e, after⟩

end Rules

end Proctor.Call
