import Proctor.Proofs.Course.Basic

/-!
# What is told of a session that has ended

Whoever looks at a session that has ended is told the record that is stored, at any time:
`get` shows it, `complete` gives a completed one again, and a review is a review of it.
-/

set_option autoImplicit false

namespace Proctor.Ticking

open Exam

variable {w : Ticking} {token : String} {s : Session}

theorem run_find (found : w.world.tables.findByToken? token = some s) : (find token).run handle w = (.ok s, w) := by
  simp only [find, Call.run_bind, Call.ask, Call.run, handle, ready, World.handle, found, Call.orFail]

theorem run_look (found : w.world.tables.findByToken? token = some s) (finished : s.status ≠ .ongoing) :
    (look token).run handle w = (.ok s, w.tick) := by
  have unexpired : s.isExpired (w.clock 0) = false := Session.isExpired_of_finished finished _
  simp only [look, Call.run_bind, run_find found, observe, Call.now, Call.ask, Call.run, handle, ready, tick, World.handle,
    unexpired]
  rfl

theorem run_complete (found : w.world.tables.findByToken? token = some s) (finished : s.status = .completed) :
    (complete token).run handle w = (.ok s, w) := by
  simp only [complete, Call.run_bind, run_find found, finished]
  rfl

theorem run_get (found : w.world.tables.findByToken? token = some s) (finished : s.status ≠ .ongoing) :
    (Exam.get token).run handle w = (.ok ⟨s, (w.world.tables.answersOf s.id).length, 0⟩, w.tick) := by
  have terminal : s.status.isTerminal = true := by simpa [Status.isTerminal] using finished
  simp only [Exam.get, Call.run_bind, run_look found finished, Call.ask, Call.run, handle, ready, tick, World.handle, remaining,
    terminal, if_true]
  rfl

theorem session_of_run_detail (found : w.world.tables.findByToken? token = some s) (finished : s.status ≠ .ongoing)
    {review : Review} (told : ((detail token).run handle w).1 = .ok review) : review.session = s := by
  obtain ⟨seen, v, looked, told⟩ := Call.exists_of_run_bind told
  obtain rfl : s = seen := Except.ok.inj (congrArg Prod.fst ((run_look found finished).symm.trans looked))
  split at told
  · obtain ⟨joined, v, -, told⟩ := Call.exists_of_run_bind told
    obtain ⟨items, v, -, told⟩ := Call.exists_of_run_bind told
    cases told
    rfl
  · cases told

end Proctor.Ticking
