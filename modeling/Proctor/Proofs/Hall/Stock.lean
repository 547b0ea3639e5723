import Proctor.Proofs.Exam.Stock
import Proctor.Proofs.Hall.Basic

/-!
# What all callers keep

If every operation changes the world in a certain way only, as long as the others do so too, then a whole run
changes it in this way (`keeps_play`), in whatever order the callers act and whatever the clock shows. So
slots always have their questions (`stocked_play`).
-/

set_option autoImplicit false

namespace Proctor.Hall

open Call

variable {h : Hall} {i j : Nat} {o : Exam.Operation} {q : Access} {next : q.Answer → Call o.Result} {rel : World → World → Prop}

/-- What is left of each operation changes the world by `rel` only, if the others do so too. -/
def Keeps (h : Hall) (rel : World → World → Prop) : Prop :=
  ∀ {i : Nat} {c : Caller}, h.callers[i]? = some c → c.rest.Meets World.handle rel rel (fun _ _ => True) h.world

theorem keeps_entered (keeps : h.Keeps rel) (new : o.call.Meets World.handle rel rel (fun _ _ => True) h.world) :
    (h.entered o).Keeps rel := by
  intro i c here
  obtain here | ⟨-, rfl⟩ := callers_entered here
  · exact keeps here
  · exact new

section Rules

variable (trans : ∀ u v w, rel u v → rel v w → rel u w) (ticks : ∀ (w : World) now, rel w { w with now := now })

include trans ticks

theorem rel_acted (keeps : h.Keeps rel) (here : h.callers[i]? = some ⟨o, .step q next⟩) (now : Instant) :
    rel h.world (h.acted i now next).world :=
  trans _ _ _ (ticks h.world now) ((keeps here).resume (ticks h.world now)).1

theorem keeps_acted (keeps : h.Keeps rel) (here : h.callers[i]? = some ⟨o, .step q next⟩) (now : Instant) :
    (h.acted i now next).Keeps rel := by
  intro j c there
  by_cases same : i = j
  · subst same
    obtain rfl := Option.some.inj ((callers_acted_self here).symm.trans there)
    exact ((keeps here).resume (ticks h.world now)).2
  · rw [callers_acted_of_ne same] at there
    exact (keeps there).stable (fun u further => trans _ _ _ (rel_acted trans ticks keeps here now) further) fun _ _ => trivial

/-- **What every operation keeps among others who keep it, a run keeps.** -/
theorem keeps_play (calls : ∀ (o : Exam.Operation) w, o.fits = true → o.call.Meets World.handle rel rel (fun _ _ => True) w)
    (keeps : h.Keeps rel) (events : List Event) : rel h.world (h.play events).world ∧ (h.play events).Keeps rel := by
  induction events generalizing h with
  | nil => exact ⟨ticks h.world h.world.now, keeps⟩
  | cons x events ih =>
    obtain eq | ⟨o, fits, -, eq⟩ | ⟨i, now, o, q, next, -, here, eq⟩ := h.act_cases x
    all_goals
      show rel h.world ((h.act x).play events).world ∧ ((h.act x).play events).Keeps rel
      rw [eq]
    · exact ih keeps
    · exact ih (h := h.entered o) (keeps_entered keeps (calls o h.world fits))
    · obtain ⟨later, kept⟩ := ih (keeps_acted trans ticks keeps here now)
      exact ⟨trans _ _ _ (rel_acted trans ticks keeps here now) later, kept⟩

end Rules

/-- A run makes slots for questions of the catalog only. -/
theorem stocks_play (keeps : h.Keeps World.Stocks) (events : List Event) :
    h.world.Stocks (h.play events).world ∧ (h.play events).Keeps World.Stocks := by
  have trans : ∀ u v w : World, u.Stocks v → v.Stocks w → u.Stocks w := fun _ _ _ => World.Stocks.trans
  exact keeps_play trans (fun _ _ => .of_slots rfl id) (fun o w _ => o.stocks_call w) keeps events

/-- **Every slot has its question at any time**, if each question is found by its own id. -/
theorem stocked_play {catalog : Catalog} (keyed : catalog.Keyed) (now : Instant) (quota : Option Quota) (events : List Event) :
    ((start catalog now quota).play events).world.Stocked := by
  have keeps : (start catalog now quota).Keeps World.Stocks := fun here => by cases here
  exact (World.stocked_start keyed now quota).of_stocks (stocks_play @keeps events).1

end Proctor.Hall
