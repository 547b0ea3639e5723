import Proctor.Proofs.Course.Report
import Proctor.Proofs.Course.Verdict

/-!
# The score of a completed session

A session is completed with the count of the questions that were last answered rightly, as the
log tells (`scored_by_verdicts`), and whoever asks later is told the same.
-/

set_option autoImplicit false

namespace Proctor

/-- For each sequence of a session with this token and total, whether the log says that it is right. -/
def verdicts (log : List Entry) (token : String) (total : Int) : List Bool :=
  (List.range total.toNat).map fun i : Nat => (verdict log token (i + 1)).getD false

theorem length_verdicts (log : List Entry) (token : String) (total : Int) : (verdicts log token total).length = total.toNat := by
  simp [verdicts]

namespace Tables

variable {t u : Tables} {e : Entry} {log : List Entry} {id : Int} {s done : Session}

/-- The right answers among the rows are the slots with a right answer. -/
theorem count_answersOf (t : Tables) (id : Int) :
    ((t.answersOf id).map (·.isCorrect)).count true = ((t.slotsOf id).map fun slot => t.right slot.id).count true := by
  rw [(t.map_isCorrect_answersOf id).count_eq, gradesOf, List.count_eq_countP, List.count_eq_countP, List.countP_filterMap,
    List.countP_map]
  refine List.countP_congr fun slot _ => ?_
  simp only [Function.comp_apply, right]
  cases t.answers.get? slot.id <;> simp

/-- The turn that ends a session leaves its answers alone. -/
theorem right_of_ended (effect : e.Effect t u) (before : t.find? id = some s) (ongoing : s.status = .ongoing)
    (after : u.find? id = some done) (finished : done.status ≠ .ongoing) {slot : Slot} (held : u.slots.get? slot.id = some slot) :
    u.right slot.id = t.right slot.id := by
  cases effect with
  | quiet _ _ quiet =>
    unfold right
    rw [quiet.answer held]
  | marked _ _ wrote =>
    cases wrote
    obtain rfl := Option.some.inj (before.symm.trans after)
    exact absurd ongoing finished
  | opened =>
    obtain ⟨-, rfl⟩ | ⟨-, after⟩ := find?_opened_eq_some.1 after
    · exact absurd rfl finished
    · obtain rfl := Option.some.inj (before.symm.trans after)
      exact absurd ongoing finished

/-- The slots of a session bear the verdicts, also if the session is ended in this turn. -/
theorem map_right_of_ended (valid : t.Consistent) (valid' : u.Consistent) (evolves : t.Evolves u) (logged : t.Logged log)
    (effect : e.Effect t u) (before : t.find? id = some s) (ongoing : s.status = .ongoing)
    (after : u.find? id = some done) (finished : done.status ≠ .ongoing) :
    ((u.slotsOf id).map fun slot => u.right slot.id) = verdicts log s.token s.total := by
  have slots := evolves.slots before after
  calc ((u.slotsOf id).map fun slot => u.right slot.id)
      = (t.slotsOf id).map fun slot => (verdict log s.token slot.sequence).getD false := by
        rw [slots]
        refine List.map_congr_left fun slot listed => ?_
        have held := (valid'.mem_slotsOf_iff.1 (slots ▸ listed)).1
        rw [right_of_ended effect before ongoing after finished held]
        exact logged.graded before ongoing listed
    _ = ((t.slotsOf id).map (·.sequence)).map fun k => (verdict log s.token k).getD false := by
        rw [List.map_map]
        rfl
    _ = verdicts log s.token s.total := by
        rw [valid.sequences before, List.map_map]
        rfl

end Tables

namespace Course

/-- **A completed session has the score of its last answers**: if a turn completes a session, then
the count is that of the sequences whose last answer or clearing in the log was a right answer, since
the token was given out last, which is all of the log if it was given out once; and whatever turns
follow, at any time the session is reported like this. -/
theorem scored_by_verdicts (catalog : Catalog) (now : Instant) (quota : Option Quota) (turns : List Turn) (x : Turn)
    {id : Int} {s done : Session}
    (before : ((start catalog now quota).play turns).tables.find? id = some s) (unfinished : s.status ≠ .completed)
    (after : (((start catalog now quota).play turns).take x).tables.find? id = some done)
    (completed : done.status = .completed) :
    let c := (start catalog now quota).play turns
    (∃ n score, done.correctCount = some n ∧ done.score = some score ∧
      n = (verdicts c.log done.token done.total).count true ∧
      Score.tally (verdicts c.log done.token done.total) done.total = ⟨n, score⟩) ∧
    (c.log.countP (·.opens done.token) ≤ 1 → ∀ k, verdict c.log done.token k = c.log.findSome? (·.mark? done.token k)) ∧
    ∀ (more : List Turn) (clock : Nat → Instant),
      let w := ((c.take x).play more).world
      (w.perform (.complete done.token) clock).1 = .ok done ∧
        (∃ shown, (w.perform (.get done.token) clock).1 = .ok shown ∧ shown.session = done) ∧
        ∀ review, (w.perform (.detail done.token) clock).1 = .ok review → review.session = done := by
  intro c
  have valid := valid_play catalog now quota turns
  have logged : c.tables.Logged c.log := logged_play (c := start catalog now quota) Tables.valid_empty Tables.logged_empty turns
  have follows : c.tables.Follows (c.take x).tables := World.follows_perform valid x.fits x.clock
  obtain ⟨e, -, effect⟩ := c.effect_take x
  have ongoing : s.status = .ongoing := by
    rcases follows.evolves.status before after with rfl | ⟨ongoing, -⟩
    · exact absurd completed unfinished
    · exact ongoing
  have finished : done.status ≠ .ongoing := by
    rw [completed]
    decide
  obtain ⟨terms, total⟩ := follows.evolves.terms before after
  have token : done.token = s.token := congrArg Terms.token terms
  refine ⟨?_, logged.verdict_eq, ?_⟩
  · have lawful := follows.valid.lawful after
    obtain ⟨-, n, score, correctCount, percent, tally, -⟩ := lawful.completed completed
    have slots := Tables.map_right_of_ended valid.consistent follows.valid.consistent follows.evolves logged effect before ongoing after finished
    have count := (c.take x).tables.count_answersOf id
    rw [slots, ← token, ← total] at count
    have tally' : Score.tally (verdicts c.log done.token done.total) done.total = ⟨n, score⟩ :=
      (Score.tally_congr count _).symm.trans tally
    refine ⟨n, score, correctCount, percent, ?_, tally'⟩
    have few : done.total ≤ 2147483647 := lawful.total_le
    rw [← Score.correct_tally (by simp only [length_verdicts]; omega) done.total, tally']
  · intro more clock w
    have rest := follows_play (c := c.take x) follows.valid more
    have stored : w.tables.find? id = some done := rest.evolves.ended after finished
    have found : w.tables.findByToken? done.token = some done :=
      rest.valid.consistent.findByToken?_iff.2 ⟨(rest.valid.consistent.session_id stored).symm ▸ stored, rfl⟩
    refine ⟨?_, ?_, ?_⟩
    · exact congrArg Prod.fst (Ticking.run_complete (w := ⟨w, clock⟩) found completed)
    · exact ⟨_, congrArg Prod.fst (Ticking.run_get (w := ⟨w, clock⟩) found finished), rfl⟩
    · intro review told
      exact Ticking.session_of_run_detail (w := ⟨w, clock⟩) found finished told

namespace Sample

/-- One question, to which B is the right answer. -/
def catalog : Catalog := .ofList [⟨7, ⟨1, 1, none⟩, "2 + 2", .choice ⟨⟨"3", "4", "5", "6"⟩, .b⟩⟩]

def user : Uuid := ⟨⟨0, by decide⟩⟩

def turn (o : Exam.Operation) (fits : o.fits = true) : Turn := ⟨o, fun _ => ⟨0, false⟩, fits⟩

def opens : Turn := turn (.create user ⟨⟨1, 1, none⟩, 30, 1⟩ ⟨"T", []⟩) rfl

/-- One question, for half an hour. -/
def request : Request := ⟨⟨1, 1, none⟩, 30, 1⟩

/-- The same user opens a session with another token. -/
def opensAnother (token : String) : Turn := turn (.create user request ⟨token, []⟩) rfl

def answers : Turn := turn (.submit "T" 1 (.string "B")) rfl

def cancels : Turn := turn (.cancel "T") rfl

def completes : Turn := turn (.complete "T") rfl

/-- The session that `opens` stores under this id. -/
def session (id : Int) : Session where
  token := "T"
  user := user
  scope := ⟨1, 1, none⟩
  startedAt := ⟨0, false⟩
  minutes := 30
  deadline := ⟨1800000000000, false⟩
  id := id
  status := .ongoing
  finishedAt := none
  total := 1
  correctCount := none
  score := none

end Sample

/-- A session that is completed after a right answer is reported like that from then on. -/
theorem scored_by_verdicts_of_right_answer :
    let c := (start Sample.catalog ⟨0, false⟩ none).play [Sample.opens, Sample.answers]
    let s := Sample.session 1
    let done := s.completed [true] ⟨0, false⟩
    c.tables.find? 1 = some s ∧ s.status ≠ .completed ∧ (c.take Sample.completes).tables.find? 1 = some done ∧
      done.status = .completed ∧ (∃ n score, done.correctCount = some n ∧ done.score = some score ∧
        n = (verdicts c.log done.token done.total).count true ∧
        Score.tally (verdicts c.log done.token done.total) done.total = ⟨n, score⟩) := by
  intro c s done
  have before : c.tables.find? 1 = some s := by decide +kernel
  have after : (c.take Sample.completes).tables.find? 1 = some done := by decide +kernel
  have unfinished : s.status ≠ .completed := by decide
  exact ⟨before, unfinished, after, rfl, (scored_by_verdicts _ _ _ _ _ before unfinished after rfl).1⟩

/-- A right answer to a cancelled session does not count for a later session with the same token. -/
theorem not_scored_by_whole_log :
    ¬∀ (catalog : Catalog) (now : Instant) (quota : Option Quota) (turns : List Turn) (x : Turn) (id : Int) (s done : Session),
      let c := (start catalog now quota).play turns
      c.tables.find? id = some s → s.status ≠ .completed → (c.take x).tables.find? id = some done →
        done.status = .completed → done.correctCount = some (((List.range done.total.toNat).countP fun i : Nat =>
          c.log.findSome? (·.mark? done.token (i + 1)) = some true : Nat) : Int) := by
  intro all
  have before : ((start Sample.catalog ⟨0, false⟩ none).play
      [Sample.opens, Sample.answers, Sample.cancels, Sample.opens]).tables.find? 2 = some (Sample.session 2) := by
    decide +kernel
  have counted := all _ _ _ _ Sample.completes 2 _ ((Sample.session 2).completed [] ⟨0, false⟩) before (by decide)
    (by decide +kernel) rfl
  exact absurd counted (by decide +kernel)

end Course

end Proctor
