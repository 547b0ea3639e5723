import Proctor.Call

/-!
# Calls under interference

Between two accesses of a call the state may change. `Call.Meets` says what a call does if
these changes are of a kind that it relies on: each of its own accesses is a change that it
guarantees to others, and what it comes to has a postcondition. A call is put together from
its parts by `meets_bind`.
-/

set_option autoImplicit false

namespace Proctor.Call

variable {α β σ : Type}

/-- If the state changes by `rely` before each access, then each access changes it by `guar`,
and what the call comes to satisfies `post` in the state after the last access. -/
def Meets (handle : Handler σ) (rely guar : σ → σ → Prop) (post : Except Error α → σ → Prop) : Call α → σ → Prop
  | .done a, s => post (.ok a) s
  | .failed e, s => post (.error e) s
  | .step q next, s => ∀ u, rely s u → guar u (handle q u).2 ∧
      match handle q u with
      | (.ok answer, v) => Meets handle rely guar post (next answer) v
      | (.error e, v) => post (.error e) v

/-- Goes on with what an access gave. -/
def resume {q : Access} (next : q.Answer → Call α) : Except Error q.Answer → Call α
  | .ok answer => next answer
  | .error e => .failed e

variable {handle : Handler σ} {rely guar : σ → σ → Prop}

theorem Meets.imp {mid post : Except Error α → σ → Prop} {c : Call α} {s : σ} (h : c.Meets handle rely guar mid s)
    (weaker : ∀ r u, mid r u → post r u) : c.Meets handle rely guar post s := by
  induction c generalizing s with
  | done a => exact weaker _ _ h
  | failed e => exact weaker _ _ h
  | step q next ih =>
    intro u changed
    obtain ⟨kept, rest⟩ := h u changed
    refine ⟨kept, ?_⟩
    split at rest
    · exact ih _ rest
    · exact weaker _ _ rest

/-- What is known of the outcome of a call from two sides. -/
theorem Meets.and {guar' : σ → σ → Prop} {post post' : Except Error α → σ → Prop} {c : Call α} {s : σ}
    (h : c.Meets handle rely guar post s) (h' : c.Meets handle rely guar' post' s) :
    c.Meets handle rely guar (fun r u => post r u ∧ post' r u) s := by
  induction c generalizing s with
  | done a => exact ⟨h, h'⟩
  | failed e => exact ⟨h, h'⟩
  | step q next ih =>
    intro u changed
    obtain ⟨kept, rest⟩ := h u changed
    obtain ⟨-, rest'⟩ := h' u changed
    refine ⟨kept, ?_⟩
    split at rest <;> rename_i eq <;> simp only [eq] at rest'
    · exact ih _ rest rest'
    · exact ⟨rest, rest'⟩

/-- A call that nothing interferes with meets what it meets among others. -/
theorem Meets.run (refl : ∀ s, rely s s) {post : Except Error α → σ → Prop} {c : Call α} {s : σ}
    (h : c.Meets handle rely guar post s) : post (c.run handle s).1 (c.run handle s).2 := by
  induction c generalizing s with
  | done a => exact h
  | failed e => exact h
  | step q next ih =>
    obtain ⟨-, rest⟩ := h s (refl s)
    cases eq : handle q s with
    | mk r v =>
      simp only [eq] at rest
      cases r with
      | ok answer =>
        simp only [Call.run, eq]
        exact ih answer rest
      | error e =>
        simp only [Call.run, eq]
        exact rest

/-- What every access keeps, a call keeps that nothing interferes with. -/
theorem keeps_run {p : σ → Prop} (kept : ∀ q s, p s → p (handle q s).2) (c : Call α) {s : σ} (start : p s) :
    p (c.run handle s).2 := by
  induction c generalizing s with
  | done a => exact start
  | failed e => exact start
  | step q next ih =>
    have after := kept q s start
    rw [Call.run]
    generalize handle q s = outcome at after
    obtain ⟨e | answer, u⟩ := outcome
    · exact after
    · exact ih answer after

/-- A single access. -/
theorem meets_ask {q : Access} {post : Except Error q.Answer → σ → Prop} {s : σ}
    (h : ∀ u, rely s u → guar u (handle q u).2 ∧ post (handle q u).1 (handle q u).2) : (ask q).Meets handle rely guar post s := by
  intro u changed
  obtain ⟨kept, holds⟩ := h u changed
  refine ⟨kept, ?_⟩
  split <;> rename_i eq <;> rw [eq] at holds <;> exact holds

/-- A call in two parts: the second starts in the state in which the first has ended. -/
theorem meets_bind {mid : Except Error α → σ → Prop} {post : Except Error β → σ → Prop} {c : Call α} {f : α → Call β}
    {s : σ} (first : c.Meets handle rely guar mid s)
    (second : ∀ a u, mid (.ok a) u → (f a).Meets handle rely guar post u)
    (failed : ∀ e u, mid (.error e) u → post (.error e) u) : (c >>= f).Meets handle rely guar post s := by
  rw [bind_def]
  induction c generalizing s with
  | done a => exact second a s first
  | failed e => exact failed e s first
  | step q next ih =>
    intro u changed
    obtain ⟨kept, rest⟩ := first u changed
    refine ⟨kept, ?_⟩
    split at rest
    · exact ih _ rest
    · exact failed _ _ rest

/-- One access of a call, in a state that others have left behind. -/
theorem Meets.resume {post : Except Error α → σ → Prop} {q : Access} {next : q.Answer → Call α} {s u : σ}
    (h : (step q next).Meets handle rely guar post s) (changed : rely s u) :
    guar u (handle q u).2 ∧ (Call.resume next (handle q u).1).Meets handle rely guar post (handle q u).2 := by
  obtain ⟨kept, rest⟩ := h u changed
  refine ⟨kept, ?_⟩
  split at rest <;> rename_i eq <;> rw [eq] <;> exact rest

/-- What the changes of both sides keep holds at the end of the call as well. -/
theorem Meets.carry {inv : σ → Prop} {post : Except Error α → σ → Prop} {c : Call α} {s : σ}
    (h : c.Meets handle rely guar post s) (start : inv s) (relied : ∀ u v, inv u → rely u v → inv v)
    (kept : ∀ u v, inv u → guar u v → inv v) : c.Meets handle rely guar (fun r u => inv u ∧ post r u) s := by
  induction c generalizing s with
  | done a => exact ⟨start, h⟩
  | failed e => exact ⟨start, h⟩
  | step q next ih =>
    intro u changed
    obtain ⟨guaranteed, rest⟩ := h u changed
    have holds := kept _ _ (relied _ _ start changed) guaranteed
    refine ⟨guaranteed, ?_⟩
    split at rest
    · rename_i eq
      rw [eq] at holds
      exact ih _ rest holds
    · rename_i eq
      rw [eq] at holds
      exact ⟨holds, rest⟩

/-- What is relied on and guaranteed step by step holds over the whole call. -/
theorem Meets.since {rel : σ → σ → Prop} {post : Except Error α → σ → Prop} {c : Call α} {s₀ s : σ}
    (h : c.Meets handle rel rel post s) (start : rel s₀ s) (trans : ∀ u v, rel s₀ u → rel u v → rel s₀ v) :
    c.Meets handle rel rel (fun r u => rel s₀ u ∧ post r u) s :=
  h.carry start trans trans

/-- What a call meets now, it meets after others have changed the state. -/
theorem Meets.stable {post : Except Error α → σ → Prop} {c : Call α} {s s' : σ} (h : c.Meets handle rely guar post s)
    (trans : ∀ u, rely s' u → rely s u) (kept : ∀ r, post r s → post r s') : c.Meets handle rely guar post s' := by
  cases c with
  | done a => exact kept _ h
  | failed e => exact kept _ h
  | step q next => exact fun u changed => h u (trans u changed)

end Proctor.Call
