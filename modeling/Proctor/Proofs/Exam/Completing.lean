import Proctor.Proofs.Exam.Alone
import Proctor.Proofs.Exam.Listing

/-!
# Completing a session

A completion that nothing comes in between finds a session that is completed, timed out or ongoing, and then the clock decides: each
state and each instant has one outcome, and none of them is the error for a completion that was not taken. Main statement:
`complete_outcome`.
-/

set_option autoImplicit false

namespace Proctor

/-- What is filled in of a session goes by its state: only a completed one has a count and a score. -/
structure Session.Proper (s : Session) : Prop where
  not_cancelled : s.status ≠ .cancelled
  unscored : s.status ≠ .completed → s.correctCount = none ∧ s.score = none

namespace Tables

variable {t : Tables} {id : Int} {s s' : Session}

/-- Every stored session is proper. -/
def Proper (t : Tables) : Prop := ∀ id s, t.find? id = some s → s.Proper

theorem Proper.ended (proper : t.Proper) (ends : s'.Proper) : (t.ended id s').Proper := by
  intro other r stored
  obtain ⟨-, rfl⟩ | ⟨-, stored⟩ := find?_ended_eq_some.1 stored
  · exact ends
  · exact proper other r stored

/-- **Every access keeps sessions proper**, whatever it brings along. -/
theorem Proper.handle {w : World} (proper : w.tables.Proper) (q : Access) : (w.handle q).2.tables.Proper := by
  by_cases reads : q.Reads
  · rwa [World.tables_handle_of_reads reads]
  cases q with
  | create terms drawn =>
    obtain ⟨_, eq⟩ | ⟨-, eq⟩ := w.tables.create_cases terms drawn
    all_goals simp only [World.handle, eq]
    · exact proper
    · intro id s stored
      obtain ⟨-, rfl⟩ | ⟨-, stored⟩ := find?_opened_eq_some.1 stored
      · exact ⟨fun ended => (by cases ended), fun _ => ⟨rfl, rfl⟩⟩
      · exact proper id s stored
  | markTimedOut id now =>
    obtain ⟨_, eq⟩ | ⟨_, _, _, eq⟩ | ⟨s, stored, ongoing, eq⟩ := w.tables.markTimedOut_cases id now
    all_goals simp only [World.handle, eq]
    · exact proper
    · exact proper
    · exact proper.ended ⟨fun ended => (by cases ended), fun _ => (proper id s stored).unscored (by simp [ongoing])⟩
  | complete id now =>
    obtain ⟨_, eq⟩ | ⟨s, _, _, eq⟩ := w.tables.complete_cases id now
    all_goals simp only [World.handle, eq]
    · exact proper
    · exact proper.ended ⟨fun ended => (by cases ended), fun unfinished => absurd rfl unfinished⟩
  | deleteOngoing id =>
    obtain ⟨_, eq⟩ | ⟨s, _, _, eq⟩ := w.tables.deleteOngoing_cases id
    all_goals simp only [World.handle, eq]
    · exact proper
    · exact fun other r stored => proper other r (find?_removed_eq_some.1 stored).2
  | record a =>
    obtain eq | ⟨_, eq⟩ := w.tables.record_cases a
    all_goals
      simp only [World.handle, eq]
      exact proper
  | clear k now =>
    obtain eq | ⟨_, eq⟩ | ⟨_, eq⟩ := w.tables.clear_cases k now
    all_goals
      simp only [World.handle, eq]
      exact proper
  | _ => exact absurd trivial reads

theorem Reached.proper (reached : t.Reached) : t.Proper := by
  induction reached with
  | empty => exact fun _ _ stored => by cases stored
  | access w _ q ih => exact ih.handle q

end Tables

namespace Exam

open Call

variable {w : World} {token : String} {s : Session}

/-- An open session is completed with the score of its answers. -/
theorem run_complete_of_isOpen (found : w.tables.findByToken? token = some s) (stored : w.tables.find? s.id = some s)
    (isOpen : s.isOpen w.now = true) : (complete token).run World.handle w = (.ok (s.completed (w.tables.gradesOf s.id) w.now),
      { w with tables := w.tables.ended s.id (s.completed (w.tables.gradesOf s.id) w.now) }) := by
  obtain ⟨ongoing, inTime⟩ := Session.isOpen_iff.1 isOpen
  have current : s.isExpired w.now = false := Session.isExpired_of_inTime inTime
  have done : w.tables.complete s.id w.now = (some (s.completed (w.tables.gradesOf s.id) w.now),
      w.tables.ended s.id (s.completed (w.tables.gradesOf s.id) w.now)) := by
    obtain ⟨closed, -⟩ | ⟨s', stored', -, done⟩ := w.tables.complete_cases s.id w.now
    · cases isOpen.symm.trans (closed s stored)
    · obtain rfl := Option.some.inj (stored.symm.trans stored')
      exact done
  have completed : (ask (.complete s.id w.now)).run World.handle w = (.ok (some (s.completed (w.tables.gradesOf s.id) w.now)),
      { w with tables := w.tables.ended s.id (s.completed (w.tables.gradesOf s.id) w.now) }) := by
    simp only [ask, run, World.handle, done]
  rw [complete, run_bind, run_find found]
  simp only [ongoing]
  rw [finish, run_bind, run_now]
  dsimp only
  rw [if_neg (by simp [current]), run_bind, completed]
  rfl

/-- A completed session is given as it is. -/
theorem run_complete_of_completed (found : w.tables.findByToken? token = some s) (completed : s.status = .completed) :
    (complete token).run World.handle w = (.ok s, w) := by
  rw [complete, run_bind, run_find found]
  simp only [completed]
  rfl

/-- A session that is timed out is left as it is. -/
theorem run_complete_of_timeout (found : w.tables.findByToken? token = some s) (timeout : s.status = .timeout) :
    (complete token).run World.handle w = (.error (.timeout (.since s.deadline)), w) := by
  rw [complete, run_bind, run_find found]
  simp only [timeout]
  exact run_ifOngoing (by rw [closedFault?, timeout])

theorem run_complete_of_none (found : w.tables.findByToken? token = none) :
    (complete token).run World.handle w = (.error (.notFound .session), w) := by
  rw [complete, run_bind, run_find_of_none found]

/-- What a completion comes to that finds this session in `w`. -/
inductive Completion (w : World) (s : Session) : Except Error Session → World → Prop where
  /-- A completed session stays as it is at any instant. -/
  | again (completed : s.status = .completed) : Completion w s (.ok s) w
  /-- An ongoing session is completed in time, and only its row changes. -/
  | now {score : Score} {done : Session} (ongoing : s.status = .ongoing) (inTime : w.now ≤ s.deadline)
      (tally : score = Score.tally (w.tables.gradesOf s.id) s.total)
      (ends : done = { s with
        status := .completed, finishedAt := some w.now, correctCount := some score.correct, score := some score.percent }) :
      Completion w s (.ok done) { w with tables := { w.tables with sessions := w.tables.sessions.insert s.id done } }
  /-- Past its deadline it is timed out, without a score, and only its row changes. -/
  | late {ended : Session} (ongoing : s.status = .ongoing) (late : s.deadline < w.now)
      (ends : ended = { s with status := .timeout, finishedAt := some w.now, correctCount := none, score := none }) :
      Completion w s (.error (.timeout (.since s.deadline)))
        { w with tables := { w.tables with sessions := w.tables.sessions.insert s.id ended } }
  /-- A session that is timed out stays as it is. -/
  | tooLate (timeout : s.status = .timeout) : Completion w s (.error (.timeout (.since s.deadline))) w

/-- It gives a session just if that is completed, or open at this instant. -/
theorem Completion.ok_iff {r : Except Error Session} {u : World} (completion : Completion w s r u) :
    (∃ given, r = .ok given) ↔ s.status = .completed ∨ s.status = .ongoing ∧ w.now ≤ s.deadline := by
  cases completion with
  | again completed => simp [completed]
  | now ongoing inTime => simp [ongoing, inTime]
  | late ongoing late =>
    have past : ¬w.now ≤ s.deadline := Int.not_le.2 late
    simp [ongoing, past]
  | tooLate timeout => simp [timeout]

theorem completion_of_found (filed : w.tables.Filed) (proper : s.Proper) (found : w.tables.findByToken? token = some s) :
    Completion w s ((complete token).run World.handle w).1 ((complete token).run World.handle w).2 := by
  have stored := (filed.findByToken?_iff.1 found).1
  cases status : s.status with
  | completed =>
    rw [run_complete_of_completed found status]
    exact .again status
  | timeout =>
    rw [run_complete_of_timeout found status]
    exact .tooLate status
  | cancelled => exact absurd status proper.not_cancelled
  | ongoing =>
    by_cases inTime : w.now ≤ s.deadline
    · rw [run_complete_of_isOpen found stored (Session.isOpen_iff.2 ⟨status, inTime⟩)]
      exact .now status inTime rfl rfl
    · have late : s.deadline < w.now := Int.not_le.1 inTime
      rw [run_complete_of_isExpired found stored (Session.isExpired_iff.2 ⟨status, late⟩)]
      obtain ⟨count, score⟩ := proper.unscored (by simp [status])
      exact .late status late (by rw [Session.timedOut, ← count, ← score])

/-- **What a completion comes to** in any tables that can be reached, at one instant. If no session has the token, none is
found. If one has it, the outcome goes by its state and by its deadline, so the completion gives a value just if the session is
completed, or ongoing and not past its deadline. -/
theorem complete_outcome (reached : w.tables.Reached) (token : String) :
    let ran := (complete token).run World.handle w
    (¬w.tables.Uses token → ran = (.error (.notFound .session), w)) ∧
      (∀ id s, w.tables.find? id = some s → s.token = token → s.id = id ∧ Completion w s ran.1 ran.2) ∧
      ((∃ given, ran.1 = .ok given) ↔ ∃ id s, w.tables.find? id = some s ∧ s.token = token ∧
        (s.status = .completed ∨ s.status = .ongoing ∧ w.now ≤ s.deadline)) := by
  intro ran
  have filed := reached.filed
  have missing (unused : ¬w.tables.Uses token) : ran = (.error (.notFound .session), w) := by
    refine run_complete_of_none (Option.eq_none_iff_forall_ne_some.2 fun s found => unused ?_)
    exact ⟨s.id, s, filed.findByToken?_iff.1 found⟩
  have comes id s (stored : w.tables.find? id = some s) (named : s.token = token) : s.id = id ∧ Completion w s ran.1 ran.2 := by
    obtain rfl := filed.session_id stored
    exact ⟨rfl, completion_of_found filed (reached.proper _ s stored) (filed.findByToken?_iff.2 ⟨stored, named⟩)⟩
  refine ⟨missing, comes, fun given => ?_, fun ⟨id, s, stored, named, live⟩ => (comes id s stored named).2.ok_iff.2 live⟩
  by_cases uses : w.tables.Uses token
  case neg =>
    obtain ⟨_, ok⟩ := given
    cases (congrArg Prod.fst (missing uses)).symm.trans ok
  obtain ⟨id, s, stored, named⟩ := uses
  exact ⟨id, s, stored, named, (comes id s stored named).2.ok_iff.1 given⟩

/-- Of two sessions one is open and is completed; the other is past its deadline and is timed out. -/
theorem complete_outcome_of_late :
    let w := Sample.late
    let opened := Course.Sample.session 1
    let expired := { Course.Sample.session 2 with token := "U", minutes := 1, deadline := ⟨60000000000, false⟩ }
    w.tables.Reached ∧ w.tables.find? 1 = some opened ∧ w.tables.find? 2 = some expired ∧
      (∃ given, ((complete "T").run World.handle w).1 = .ok given) ∧
      (complete "U").run World.handle w = (.error (.timeout (.since expired.deadline)),
        { w with tables := { w.tables with
          sessions := w.tables.sessions.insert 2 { expired with status := .timeout, finishedAt := some w.now } } }) := by
  intro w opened expired
  have first : w.tables.find? 1 = some opened := by decide +kernel
  have second : w.tables.find? 2 = some expired := by decide +kernel
  refine ⟨Sample.reached_late, first, second, ?_, ?_⟩
  · exact (complete_outcome Sample.reached_late "T").2.2.2 ⟨1, opened, first, rfl, .inr ⟨rfl, by decide +kernel⟩⟩
  · obtain ⟨-, completion⟩ := (complete_outcome Sample.reached_late "U").2.1 2 expired second rfl
    generalize (complete "U").run World.handle w = ran at completion ⊢
    obtain ⟨r, u⟩ := ran
    cases completion with
    | late _ _ ends =>
      subst ends
      rfl
    | again completed => cases completed
    | now _ inTime => exact absurd inTime (by decide +kernel)
    | tooLate timeout => cases timeout

end Exam

end Proctor
