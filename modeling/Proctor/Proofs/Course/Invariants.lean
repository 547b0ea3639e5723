import Proctor.Proofs.Course.Scoring

/-!
# What holds in every course

The main statements about courses of operations from empty tables: the tables fit together and
no id is given to a second row, every stored session is lawful, and sessions end once and for
all.
-/

set_option autoImplicit false

namespace Proctor.Course

namespace Sample

/-- A second after the first one another session is opened. -/
def opensLater : Turn := ⟨.create user request ⟨"U", []⟩, fun _ => ⟨1000000000, false⟩, rfl⟩

/-- It is looked at when its half hour is over. -/
def looksLate : Turn := ⟨.get "U", fun _ => ⟨1801000000001, false⟩, rfl⟩

def cancelsThird : Turn := turn (.cancel "V") rfl

/-- The first session, completed with the right answer. -/
def done : Session :=
  { session 1 with status := .completed, finishedAt := some ⟨0, false⟩, correctCount := some 1, score := some 100.0 }

/-- The second session, timed out. -/
def late : Session :=
  { session 2 with
    token := "U"
    startedAt := ⟨1000000000, false⟩
    deadline := ⟨1801000000000, false⟩
    status := .timeout
    finishedAt := some ⟨1801000000001, false⟩ }

end Sample

variable (catalog : Catalog) (now : Instant) (quota : Option Quota)

/-- **The tables fit together**, and a row that is added later has an id beyond all ids so far. -/
theorem consistent_play (turns more : List Turn) (x : Turn) :
    let c := (start catalog now quota).play turns
    let d := c.play more
    let e := d.take x
    c.tables.Consistent ∧
      (∀ {id s}, e.tables.find? id = some s → d.tables.find? id = none → c.tables.lastSession < id) ∧
      (∀ {k slot}, e.tables.slots.get? k = some slot → d.tables.slots.get? k = none → c.tables.lastSlot < k) := by
  intro c d e
  have valid := valid_play catalog now quota turns
  have cd := follows_play valid more
  have de := World.follows_perform cd.valid x.fits x.clock
  refine ⟨valid.consistent, ?_, ?_⟩
  · intro id s stored missing
    by_contra le
    have missing' := de.evolves.gone (Int.le_trans (Int.not_lt.1 le) cd.evolves.lastSession_le) missing
    cases stored.symm.trans missing'
  · intro k slot held missing
    by_contra le
    have missing' := de.evolves.gone_slots (Int.le_trans (Int.not_lt.1 le) cd.evolves.lastSlot_le) missing
    cases held.symm.trans missing'

/-- Of two sessions the second one was cancelled. A third one with its token gets other ids, and so does its slot. -/
theorem consistent_play_of_cancelled :
    let c := (start Sample.catalog ⟨0, false⟩ none).play [Sample.opens, Sample.answers, Sample.opensAnother "V", Sample.cancelsThird]
    let e := (c.play [Sample.completes]).take (Sample.opensAnother "V")
    c.tables.Consistent ∧ c.tables.findByToken? "T" = some (Sample.session 1) ∧
      c.tables.answersOf 1 = [⟨1, .option .b, true, ⟨0, false⟩⟩] ∧ c.tables.find? 2 = none ∧
      e.tables.find? 3 = some { Sample.session 3 with token := "V" } ∧ c.tables.lastSession < 3 ∧
      e.tables.slots.get? 3 = some ⟨3, 3, 7, 1, .singleChoice⟩ ∧ c.tables.lastSlot < 3 := by
  intro c e
  obtain ⟨consistent, session, slot⟩ := consistent_play Sample.catalog ⟨0, false⟩ none
    [Sample.opens, Sample.answers, Sample.opensAnother "V", Sample.cancelsThird] [Sample.completes] (Sample.opensAnother "V")
  have stored : e.tables.find? 3 = some { Sample.session 3 with token := "V" } := by decide +kernel
  have held : e.tables.slots.get? 3 = some ⟨3, 3, 7, 1, .singleChoice⟩ := by decide +kernel
  refine ⟨consistent, by decide +kernel, by decide +kernel, by decide +kernel, stored, session stored ?_, held, slot held ?_⟩
  all_goals decide +kernel

/-- **Every stored session is lawful**, with the answers that are stored for it. -/
theorem lawful_play (turns : List Turn) : ((start catalog now quota).play turns).tables.Lawful :=
  (valid_play catalog now quota turns).lawful

/-- One session is completed, and one that was opened a second later is timed out: the first had its deadline after half an hour,
the other a second later. -/
theorem lawful_play_of_ended :
    let t := ((start Sample.catalog ⟨0, false⟩ none).play
      [Sample.opens, Sample.answers, Sample.completes, Sample.opensLater, Sample.looksLate]).tables
    t.find? 1 = some Sample.done ∧ t.answersOf 1 = [⟨1, .option .b, true, ⟨0, false⟩⟩] ∧ Sample.done.Lawful (t.answersOf 1) ∧
      t.find? 2 = some Sample.late ∧ t.answersOf 2 = [] ∧ Sample.late.Lawful (t.answersOf 2) := by
  intro t
  have lawful : t.Lawful := lawful_play Sample.catalog ⟨0, false⟩ none
    [Sample.opens, Sample.answers, Sample.completes, Sample.opensLater, Sample.looksLate]
  have first : t.find? 1 = some Sample.done := by decide +kernel
  have second : t.find? 2 = some Sample.late := by decide +kernel
  exact ⟨first, by decide +kernel, lawful first, second, by decide +kernel, lawful second⟩

/-- **Sessions end once and for all**: from a state to any later one they go on as `Evolves` says,
only ongoing sessions are removed, and what was removed does not come back. -/
theorem evolves_play (turns more rest : List Turn) :
    let c := (start catalog now quota).play turns
    let d := c.play more
    let e := d.play rest
    c.tables.Evolves d.tables ∧
      ∀ {id s}, c.tables.find? id = some s → d.tables.find? id = none → s.status = .ongoing ∧ e.tables.find? id = none := by
  intro c d e
  have valid := valid_play catalog now quota turns
  have cd := follows_play valid more
  have de := follows_play cd.valid rest
  refine ⟨cd.evolves, ?_⟩
  intro id s stored missing
  constructor
  · by_contra finished
    cases (cd.evolves.ended stored finished).symm.trans missing
  · exact de.evolves.gone (Int.le_trans (valid.consistent.session_le stored) cd.evolves.lastSession_le) missing

/-- Of three ongoing sessions one is completed, one timed out and one cancelled. The ones that have ended stay, and the cancelled one
does not come back, although another one gets its token. -/
theorem evolves_play_of_three :
    let c := (start Sample.catalog ⟨0, false⟩ none).play [Sample.opens, Sample.answers, Sample.opensLater, Sample.opensAnother "V"]
    let d := c.play [Sample.completes, Sample.looksLate, Sample.cancelsThird]
    let e := d.play [Sample.opensAnother "V"]
    c.tables.Evolves d.tables ∧ c.tables.find? 1 = some (Sample.session 1) ∧ d.tables.find? 1 = some Sample.done ∧
      c.tables.find? 2 = some { Sample.late with status := .ongoing, finishedAt := none } ∧ d.tables.find? 2 = some Sample.late ∧
      c.tables.find? 3 = some { Sample.session 3 with token := "V" } ∧ d.tables.find? 3 = none ∧ e.tables.find? 3 = none ∧
      e.tables.findByToken? "V" = some { Sample.session 4 with token := "V" } := by
  intro c d e
  obtain ⟨evolves, gone⟩ := evolves_play Sample.catalog ⟨0, false⟩ none
    [Sample.opens, Sample.answers, Sample.opensLater, Sample.opensAnother "V"]
    [Sample.completes, Sample.looksLate, Sample.cancelsThird] [Sample.opensAnother "V"]
  have stored : c.tables.find? 3 = some { Sample.session 3 with token := "V" } := by decide +kernel
  have missing : d.tables.find? 3 = none := by decide +kernel
  refine ⟨evolves, ?_, ?_, ?_, ?_, stored, missing, (gone stored missing).2, ?_⟩
  all_goals decide +kernel

end Proctor.Course
