import Proctor.Proofs.Exam.Alone
import Proctor.Proofs.Hall.Basic

/-!
# When a passed deadline is noticed

In any state that a hall comes to, an operation at one instant that fails or only looks leaves
nothing behind but the time-out of the session that it is addressed to (`unchanged_of_failed`).
That this time-out happens only now, and not when the deadline passed, makes no difference to
anybody who asks for the session (`same_if_noticed_before`).
-/

set_option autoImplicit false

namespace Proctor.Hall

variable (catalog : Catalog) (now : Instant) (quota : Option Quota)

/-- **Failures and views leave nothing but a time-out**: all tables and both counters are as before, except
that the session that the operation is addressed to is timed out if it was ongoing past its deadline.
An answer that the question of an open session cannot read fails and leaves no trace at all. -/
theorem unchanged_of_failed (events : List Event) (instant : Instant) (o : Exam.Operation) :
    let w : World := { ((start catalog now quota).play events).world with now := instant }
    let looked : World := o.token?.elim w w.lookedAt
    (∀ e, (w.run o.call).1 = .error e → (w.run o.call).2 = looked) ∧
      (o.isView = true → (w.run o.call).2 = looked) ∧
      ∀ {token s sequence slot q details payload fault}, w.tables.findByToken? token = some s → s.isOpen instant = true →
        w.tables.slotAt? s.id sequence = some slot → w.catalog.get? slot.question = some q →
        q.detailsFor slot.kind = .ok details → details.accept payload = .error fault →
        w.run (Exam.submit token sequence payload) = (.error (.input fault), w) := by
  intro w looked
  have valid : w.tables.Valid := (sound_play catalog now quota events).valid
  refine ⟨?_, ?_, ?_⟩
  · intro e failed
    exact (Exam.Operation.lands_call valid o).eq_of_error failed
  · intro view
    exact (Exam.Operation.lands_call valid o).eq_of_forall fun _ _ same => same view
  · intro token s sequence slot q details payload fault found isOpen held kept fits unreadable
    exact Exam.run_submit_of_unreadable valid found isOpen held kept fits unreadable

/-- A right answer that comes too late fails, and times out its session. -/
theorem unchanged_of_failed_of_late_answer :
    let w : World := { (Sample.starts.play Sample.opens).world with now := ⟨1800000000001, false⟩ }
    let answered := w.run (Exam.submit "T" 1 (.string "B"))
    answered.1 = .error (.timeout (.since ⟨1800000000000, false⟩)) ∧ answered.2 = w.lookedAt "T" ∧
      (w.lookedAt "T").tables.find? 1 = some ((Course.Sample.session 1).timedOut ⟨1800000000001, false⟩) := by
  intro w answered
  have failed : answered.1 = .error (.timeout (.since ⟨1800000000000, false⟩)) := by decide +kernel
  refine ⟨failed, ?_, by decide +kernel⟩
  exact (unchanged_of_failed Course.Sample.catalog ⟨0, false⟩ none Sample.opens _ (.submit "T" 1 (.string "B"))).1 _ failed

/-- **A time-out that is noticed late is as good as one in time**: whoever asks for a session at some instant is told
the same, and leaves the same behind, if the session was looked at before at this instant; and afterwards
the session is not ongoing past its deadline. -/
theorem same_if_noticed_before (events : List Event) (instant : Instant) {o : Exam.Operation} {token : String}
    (addressed : o.token? = some token) :
    let w : World := { ((start catalog now quota).play events).world with now := instant }
    let noticed : World := (w.run (Exam.get token)).2
    noticed.run o.call = w.run o.call ∧
      ∀ {s s'}, w.tables.findByToken? token = some s → (w.run o.call).2.tables.find? s.id = some s' →
        s'.isExpired instant = false := by
  intro w noticed
  have valid : w.tables.Valid := (sound_play catalog now quota events).valid
  have looked : noticed = w.lookedAt token := (Exam.lands_get valid token).eq_of_forall fun _ _ same => same
  refine ⟨?_, ?_⟩
  · rw [looked]
    exact Exam.Operation.run_call_lookedAt valid addressed
  · intro s s' found stored
    exact Exam.Operation.isExpired_of_run_call valid addressed found stored

/-- A completion that comes too late is refused alike whether the session was looked at before or not. -/
theorem same_if_noticed_before_late_completion :
    let w : World := { (Sample.starts.play Sample.opens).world with now := ⟨1800000000001, false⟩ }
    let noticed := (w.run (Exam.get "T")).2
    (Exam.Operation.complete "T").token? = some "T" ∧ noticed.tables ≠ w.tables ∧
      (w.run (Exam.complete "T")).1 = .error (.timeout (.since ⟨1800000000000, false⟩)) ∧
      noticed.run (Exam.complete "T") = w.run (Exam.complete "T") := by
  intro w noticed
  refine ⟨rfl, by decide +kernel, by decide +kernel, ?_⟩
  exact (same_if_noticed_before Course.Sample.catalog ⟨0, false⟩ none Sample.opens _ (o := .complete "T") rfl).1

end Proctor.Hall
