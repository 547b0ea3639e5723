import Proctor.Proofs.Hall.Arising

/-!
# Whole operations

An operation with nothing in between is what a hall does with a new caller who makes one access after the other at the same instant
(`exists_play_run`). So it leads from a world that can arise to one that can arise, whatever the clock shows.
-/

set_option autoImplicit false

namespace Proctor

/-- An operation at an instant. -/
structure Timed where
  operation : Exam.Operation
  instant : Instant
  fits : operation.fits = true

namespace World

/-- The world after an operation with nothing in between. -/
def serve (w : World) (x : Timed) : World := (x.operation.call.run handle { w with now := x.instant }).2

/-- The world after one operation after the other. -/
def serveAll (w : World) (xs : List Timed) : World := xs.foldl serve w

/-- The world of a hall that can arise, whatever the clock shows. -/
def Arises (w : World) : Prop := ∃ h : Hall, h.Arises ∧ w = { h.world with now := w.now }

end World

namespace Hall

variable {h : Hall} {i : Nat} {o : Exam.Operation}

/-- A caller who goes on at one instant with nothing in between. -/
theorem exists_play_run {c : Call o.Result} (here : h.callers[i]? = some ⟨o, c⟩) (now : Instant) :
    ∃ events, { (h.play events).world with now := now } = (c.run World.handle { h.world with now := now }).2 := by
  induction c generalizing h with
  | done a => exact ⟨[], rfl⟩
  | failed e => exact ⟨[], rfl⟩
  | step q next ih =>
    have there : (h.acted i now next).callers[i]? = _ := callers_acted_self here
    have world : (h.acted i now next).world = (World.handle q { h.world with now := now }).2 := rfl
    have same := World.now_handle { h.world with now := now } q
    simp only [Call.run]
    generalize World.handle q { h.world with now := now } = outcome at there world same
    obtain ⟨r, v⟩ := outcome
    have still : { (h.acted i now next).world with now := now } = v := by
      rw [world, ← show v.now = now from same]
    cases r with
    | ok answer =>
      obtain ⟨events, played⟩ := ih answer there
      refine ⟨.acts i now :: events, ?_⟩
      rw [still] at played
      show { ((h.act (.acts i now)).play events).world with now := now } = _
      rw [act_acts here, played]
    | error e =>
      refine ⟨[.acts i now], ?_⟩
      show { (h.act (.acts i now)).world with now := now } = _
      rw [act_acts here, still]

end Hall

namespace World.Arises

variable {w : World}

theorem valid (arises : w.Arises) : w.tables.Valid := by
  obtain ⟨h, arises, same⟩ := arises
  rw [same]
  exact arises.coherent.sound.valid

theorem stocked (arises : w.Arises) : w.Stocked := by
  obtain ⟨h, arises, same⟩ := arises
  rw [same]
  exact ⟨arises.coherent.stocked.keyed, arises.coherent.stocked.offered⟩

/-- **After an operation** the world can arise, too, and its tables follow on those before. -/
theorem serve (arises : w.Arises) (x : Timed) : (w.serve x).Arises ∧ w.tables.Follows (w.serve x).tables := by
  obtain ⟨h, arises, same⟩ := arises
  obtain ⟨o, now, fits⟩ := x
  have new : (h.entered o).callers[h.callers.length]? = some ⟨o, o.call⟩ := by simp [Hall.entered]
  obtain ⟨events, played⟩ := Hall.exists_play_run new now
  have served : w.serve ⟨o, now, fits⟩ = { (h.play (.enters o fits :: events)).world with now := now } := by
    rw [World.serve, same]
    exact played.symm
  have follows := (arises.coherent.sound.follows_play (.enters o fits :: events)).follows
  rw [served, same]
  exact ⟨⟨_, arises.play _, rfl⟩, follows⟩

theorem serveAll (arises : w.Arises) (xs : List Timed) : (w.serveAll xs).Arises ∧ w.tables.Follows (w.serveAll xs).tables := by
  induction xs generalizing w with
  | nil => exact ⟨arises, .refl arises.valid⟩
  | cons x xs ih =>
    obtain ⟨next, follows⟩ := arises.serve x
    obtain ⟨last, follows'⟩ := ih next
    exact ⟨last, follows.trans arises.valid follows'⟩

end World.Arises

end Proctor
