import Proctor.Proofs.Store.Consistent

/-!
# Lawful sessions

The state of a session, its end, its score and its answers are written by different
operations. `Session.Lawful` says how they go together: what is filled in follows from the
state, ends and answers lie on the right side of the deadline, and the score is that of the
answers. Each change of consistent tables keeps it (`Lawful.change`).
-/

set_option autoImplicit false

namespace Proctor

/-- What holds of a stored session with these answers. -/
structure Session.Lawful (s : Session) (answers : List Answer) : Prop where
  not_cancelled : s.status ≠ .cancelled
  ongoing_iff : s.status = .ongoing ↔ s.finishedAt = none
  completed_iff_count : s.status = .completed ↔ s.correctCount.isSome
  completed_iff_score : s.status = .completed ↔ s.score.isSome
  deadline_eq : s.deadline = s.startedAt.plusMinutes s.minutes
  minutes_pos : 1 ≤ s.minutes
  minutes_le : s.minutes ≤ 480
  total_le : s.total ≤ Text.Width.signed32.greatest
  /-- A completed session ended in time, with the score of the answers that are stored for it. -/
  completed : s.status = .completed →
    (∃ t, s.finishedAt = some t ∧ t ≤ s.deadline) ∧
      (∃ n x, s.correctCount = some n ∧ s.score = some x ∧
        Score.tally (answers.map (·.isCorrect)) s.total = ⟨n, x⟩ ∧ 0 ≤ n ∧ n ≤ s.total)
  timeout : s.status = .timeout → ∃ t, s.finishedAt = some t ∧ s.deadline < t
  answered : ∀ a ∈ answers, a.answeredAt ≤ s.deadline

namespace Tables

/-- Every stored session is lawful, with the answers that are stored for it. -/
def Lawful (t : Tables) : Prop := ∀ {id : Int} {s : Session}, t.find? id = some s → s.Lawful (t.answersOf id)

theorem lawful_empty : Lawful ∅ := fun h => by cases h

variable {t u : Tables} {id : Int}

/-- The answers of a session depend on its slots and the answers to these. -/
theorem answersOf_congr (slots : u.slotsOf id = t.slotsOf id)
    (answers : ∀ slot ∈ t.slotsOf id, u.answers.get? slot.id = t.answers.get? slot.id) : u.answersOf id = t.answersOf id := by
  unfold answersOf sheet
  rw [slots]
  refine List.filterMap_congr fun slot listed => ?_
  rw [answers slot (mem_sortBy.1 listed)]

/-- The count and the score that a completion gives are those of the answers that are stored. -/
theorem Consistent.tally_answersOf (h : t.Consistent) {s : Session} (stored : t.find? id = some s)
    (total_le : s.total ≤ Text.Width.signed32.greatest) :
    Score.tally ((t.answersOf id).map (·.isCorrect)) s.total = Score.tally (t.gradesOf id) s.total ∧
      0 ≤ (Score.tally (t.gradesOf id) s.total).correct ∧ (Score.tally (t.gradesOf id) s.total).correct ≤ s.total := by
  refine ⟨Score.tally_congr ((t.map_isCorrect_answersOf id).count_eq true) _, ?_⟩
  have slots := h.length_slotsOf stored
  have grades := t.length_gradesOf_le id
  have few : s.total ≤ 2147483647 := total_le
  have count := List.count_le_length (a := true) (l := t.gradesOf id)
  rw [Score.correct_tally (by omega)]
  omega

namespace Lawful

theorem opened (lawful : t.Lawful) (h : t.Consistent) {terms : Terms} {drawn : List Drawn} (proper : Opening terms drawn) :
    (t.opened terms drawn).Lawful := by
  intro id s stored
  obtain ⟨rfl, rfl⟩ | ⟨ne, stored⟩ := find?_opened_eq_some.1 stored
  · have unanswered : ∀ a ∈ (t.opened terms drawn).answersOf (t.lastSession + 1), a.answeredAt ≤ terms.deadline := by
      intro a listed
      obtain ⟨slot, held, given⟩ := mem_answersOf.1 listed
      rw [h.slotsOf_opened_self] at held
      cases (h.get?_answers_of_mem_slotsFor held).symm.trans given
    exact {
      not_cancelled := fun e => by cases e
      ongoing_iff := by simp [opening]
      completed_iff_count := by simp [opening]
      completed_iff_score := by simp [opening]
      deadline_eq := proper.deadline_eq
      minutes_pos := proper.minutes_pos
      minutes_le := proper.minutes_le
      total_le := proper.length_le
      completed := fun e => by cases e
      timeout := fun e => by cases e
      answered := unanswered }
  · have same : (t.opened terms drawn).answersOf id = t.answersOf id :=
      answersOf_congr (h.slotsOf_opened_of_ne ne) fun _ _ => rfl
    rw [same]
    exact lawful stored

theorem ended (lawful : t.Lawful) (h : t.Consistent) {s s' : Session} (stored : t.find? id = some s)
    (ongoing : s.status = .ongoing) (ends : s.Ends (t.gradesOf id) s') : (t.ended id s').Lawful := by
  intro other r stored'
  show r.Lawful (t.answersOf other)
  obtain ⟨rfl, rfl⟩ | ⟨-, stored'⟩ := find?_ended_eq_some.1 stored'
  · have before := lawful stored
    cases ends with
    | @timedOut now late =>
      have unfinished : (s.timedOut now).status = .completed ↔ s.status = .completed := by
        simp [Session.timedOut, ongoing]
      exact { before with
        not_cancelled := by simp [Session.timedOut]
        ongoing_iff := by simp [Session.timedOut]
        completed_iff_count := unfinished.trans before.completed_iff_count
        completed_iff_score := unfinished.trans before.completed_iff_score
        completed := fun e => by cases e
        timeout := fun _ => ⟨now, rfl, late⟩ }
    | @completed now inTime =>
      obtain ⟨tally, nonneg, le⟩ := h.tally_answersOf stored before.total_le
      exact { before with
        not_cancelled := by simp [Session.completed]
        ongoing_iff := by simp [Session.completed]
        completed_iff_count := by simp [Session.completed]
        completed_iff_score := by simp [Session.completed]
        completed := fun _ => ⟨⟨now, rfl, inTime⟩, _, _, rfl, rfl, tally.trans (Score.eta _), nonneg, le⟩
        timeout := fun e => by cases e }
  · exact lawful stored'

theorem removed (lawful : t.Lawful) (h : t.Consistent) (s : Session) : (t.removed id s).Lawful := by
  intro other r stored'
  obtain ⟨ne, stored⟩ := find?_removed_eq_some.1 stored'
  have same : (t.removed id s).answersOf other = t.answersOf other :=
    answersOf_congr (slotsOf_removed_of_ne ne) fun _ listed => h.get?_answers_removed_of_ne ne listed
  rw [same]
  exact lawful stored

theorem answered (lawful : t.Lawful) (h : t.Consistent) {k : Int} {slot : Slot} {s : Session} {a? : Option Answer}
    {answers : Table Int Answer} (held : t.slots.get? k = some slot) (stored : t.find? slot.session = some s)
    (ongoing : s.status = .ongoing) (inTime : ∀ a ∈ a?, a.answeredAt ≤ s.deadline)
    (written : ∀ j, answers.get? j = if j = k then a? else t.answers.get? j) : Lawful { t with answers := answers } := by
  intro id r stored'
  by_cases own : id = slot.session
  · subst own
    obtain rfl := Option.some.inj (stored.symm.trans stored')
    have before := lawful stored
    refine { before with completed := ?_, answered := ?_ }
    · intro done
      rw [ongoing] at done
      cases done
    · intro a listed
      obtain ⟨other, listed', given⟩ := mem_answersOf.1 listed
      rw [show (Tables.answers { t with answers := answers }) = answers from rfl, written] at given
      split at given
      · exact inTime a given
      · exact before.answered a (mem_answersOf.2 ⟨other, listed', given⟩)
  · have same : answersOf { t with answers := answers } id = t.answersOf id := by
      refine answersOf_congr rfl fun other listed => ?_
      show answers.get? other.id = _
      rw [written, if_neg (h.id_ne_of_session_ne listed held own)]
    rw [same]
    exact lawful stored'

/-- **Lawful sessions stay lawful.** -/
theorem change (lawful : t.Lawful) (h : t.Consistent) (c : Change t u) : u.Lawful := by
  cases c with
  | same => exact lawful
  | opened proper fresh => exact lawful.opened h proper
  | ended stored ongoing ends => exact lawful.ended h stored ongoing ends
  | removed stored ongoing => exact lawful.removed h _
  | answered a? held stored ongoing inTime written =>
    exact lawful.answered h held stored ongoing (fun a given => (inTime a given).2) written

end Lawful

end Tables

end Proctor
