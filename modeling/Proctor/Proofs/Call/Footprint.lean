import Proctor.Proofs.Call.Interference

/-!
# The accesses of a call

`Call.Only p` says that a call makes only accesses with `p`, whatever it is told. What all of
these accesses keep is kept by the call. `Call.Confined p f` says also that the call gives up only with errors that have `f`,
unless an access fails.
-/

set_option autoImplicit false

namespace Proctor.Call

variable {α β σ : Type} {p : Access → Prop} {f : Error → Prop}

/-- All accesses that the call can make have `p`. -/
def Only (p : Access → Prop) : Call α → Prop
  | .done _ => True
  | .failed _ => True
  | .step q next => p q ∧ ∀ answer, (next answer).Only p

@[simp] theorem only_pure {a : α} : (pure a : Call α).Only p := trivial

@[simp] theorem only_failed {e : Error} : (failed e : Call α).Only p := trivial

@[simp] theorem only_ask {q : Access} : (ask q).Only p ↔ p q := and_iff_left fun _ => trivial

@[simp] theorem only_now : now.Only p ↔ p .now := only_ask

@[simp] theorem only_ofExcept {e : Except Error α} : (ofExcept e).Only p := by
  cases e <;> exact trivial

@[simp] theorem only_orFail {e : Error} {a? : Option α} : (orFail e a?).Only p := by
  cases a? <;> exact trivial

theorem Only.imp {r : Access → Prop} {c : Call α} (h : c.Only p) (weaker : ∀ q, p q → r q) : c.Only r := by
  induction c with
  | done a => exact trivial
  | failed e => exact trivial
  | step q next ih => exact ⟨weaker q h.1, fun answer => ih answer (h.2 answer)⟩

theorem only_bind {c : Call α} {g : α → Call β} (first : c.Only p) (second : ∀ a, (g a).Only p) : (c >>= g).Only p := by
  rw [bind_def]
  induction c with
  | done a => exact second a
  | failed e => exact trivial
  | step q next ih => exact ⟨first.1, fun answer => ih answer (first.2 answer)⟩

/-- All accesses that the call can make have `p`, and all errors that it can give up with have `f`. -/
def Confined (p : Access → Prop) (f : Error → Prop) : Call α → Prop
  | .done _ => True
  | .failed e => f e
  | .step q next => p q ∧ ∀ answer, (next answer).Confined p f

@[simp] theorem confined_pure {a : α} : (pure a : Call α).Confined p f := trivial

@[simp] theorem confined_failed {e : Error} : (failed e : Call α).Confined p f ↔ f e := Iff.rfl

@[simp] theorem confined_ask {q : Access} : (ask q).Confined p f ↔ p q := and_iff_left fun _ => trivial

@[simp] theorem confined_now : now.Confined p f ↔ p .now := confined_ask

theorem confined_ofExcept {r : Except Error α} (fails : ∀ e, r = .error e → f e) : (ofExcept r).Confined p f := by
  cases r with
  | ok a => exact trivial
  | error e => exact fails e rfl

theorem confined_orFail {e : Error} {a? : Option α} (fails : f e) : (orFail e a?).Confined p f := by
  cases a? with
  | some a => exact trivial
  | none => exact fails

theorem Confined.imp {r : Access → Prop} {g : Error → Prop} {c : Call α} (h : c.Confined p f) (weaker : ∀ q, p q → r q)
    (milder : ∀ e, f e → g e) : c.Confined r g := by
  induction c with
  | done a => exact trivial
  | failed e => exact milder e h
  | step q next ih => exact ⟨weaker q h.1, fun answer => ih answer (h.2 answer)⟩

theorem Confined.only {c : Call α} (h : c.Confined p f) : c.Only p := by
  induction c with
  | done a => exact trivial
  | failed e => exact trivial
  | step q next ih => exact ⟨h.1, fun answer => ih answer (h.2 answer)⟩

theorem confined_bind {c : Call α} {g : α → Call β} (first : c.Confined p f) (second : ∀ a, (g a).Confined p f) :
    (c >>= g).Confined p f := by
  rw [bind_def]
  induction c with
  | done a => exact second a
  | failed e => exact first
  | step q next ih => exact ⟨first.1, fun answer => ih answer (first.2 answer)⟩

/-- What the accesses of a call keep, and what is relied on keeps too, holds when the call has ended. -/
theorem Only.meets {handle : Handler σ} {rely guar : σ → σ → Prop} {inv : σ → Prop} {c : Call α} {s : σ} (h : c.Only p)
    (relied : ∀ u v, inv u → rely u v → inv v) (kept : ∀ q u, p q → inv u → guar u (handle q u).2 ∧ inv (handle q u).2)
    (start : inv s) : c.Meets handle rely guar (fun _ u => inv u) s := by
  induction c generalizing s with
  | done a => exact start
  | failed e => exact start
  | step q next ih =>
    intro u changed
    obtain ⟨guaranteed, holds⟩ := kept q u h.1 (relied s u start changed)
    refine ⟨guaranteed, ?_⟩
    split
    · rename_i answer v eq
      rw [eq] at holds
      exact ih answer (h.2 answer) holds
    · rename_i e v eq
      rw [eq] at holds
      exact holds

/-- What the accesses of a call keep that nothing interferes with holds when the call has ended. -/
theorem Only.keeps_run {handle : Handler σ} {c : Call α} {s : σ} (h : c.Only p) (inv : σ → Prop)
    (kept : ∀ q u, p q → inv u → inv (handle q u).2) (start : inv s) : inv (c.run handle s).2 := by
  have met : c.Meets handle Eq (fun _ _ => True) (fun _ u => inv u) s :=
    h.meets (fun _ _ here same => same ▸ here) (fun q u made here => ⟨trivial, kept q u made here⟩) start
  exact met.run fun _ => rfl

/-! ## Accesses in the order in which they are made -/

/-- The accesses that the call makes when it is carried out. -/
def accesses (handle : Handler σ) : Call α → σ → List Access
  | .done _, _ => []
  | .failed _, _ => []
  | .step q next, s =>
    q :: match handle q s with
      | (.ok answer, s) => (next answer).accesses handle s
      | (.error _, _) => []

theorem Only.of_mem_accesses {handle : Handler σ} {c : Call α} {s : σ} (h : c.Only p) {q : Access}
    (made : q ∈ c.accesses handle s) : p q := by
  induction c generalizing s with
  | done a => cases made
  | failed e => cases made
  | step q' next ih =>
    unfold accesses at made
    obtain rfl | made := List.mem_cons.1 made
    · exact h.1
    · split at made
      · exact ih _ (h.2 _) made
      · cases made

end Proctor.Call
