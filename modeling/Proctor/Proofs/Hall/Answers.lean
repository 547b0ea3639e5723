import Proctor.Proofs.Hall.Basic

/-!
# Answers among many callers

An answer is checked against its session several accesses before it is written, and anything may
happen in between. What counts is the write itself: it is refused once the session has ended, and
what it stores stays until another write to the slot takes effect (`answers_play`). So the score
of a completed session is that of its answers, for good.
-/

set_option autoImplicit false

namespace Proctor

/-- A write to a slot whose session has ended is refused. -/
theorem World.refused_of_finished {w : World} {q : Access} {k : Int} {slot : Slot} {s : Session} (writes : q.slot? = some k)
    (held : w.tables.slots.get? k = some slot) (stored : w.tables.find? slot.session = some s) (finished : s.status ≠ .ongoing) :
    ∃ answer, w.handle q = (.ok answer, w) ∧ q.Refuses answer := by
  have closed : ∀ now, w.tables.takesAnswer k now = false := by
    intro now
    cases taken : w.tables.takesAnswer k now with
    | false => rfl
    | true =>
      obtain ⟨slot', s', held', stored', ongoing, -⟩ := Tables.takesAnswer_iff.1 taken
      obtain rfl := Option.some.inj (held.symm.trans held')
      obtain rfl := Option.some.inj (stored.symm.trans stored')
      exact absurd ongoing finished
  cases q with
  | record a =>
    obtain rfl := Option.some.inj writes
    refine ⟨none, ?_, rfl⟩
    simp [handle, Tables.record, closed]
  | clear j now =>
    obtain rfl := Option.some.inj writes
    refine ⟨.closed, ?_, rfl⟩
    simp [handle, Tables.clear, closed]
  | _ => cases writes

namespace Hall

open Call

variable {h : Hall} {i : Nat} {o : Exam.Operation} {q : Access} {next : q.Answer → Call o.Result}

/-- A caller whose write comes after the end of the session changes nothing, and will be told so. -/
theorem fails_of_finished (sound : h.Sound) (here : h.callers[i]? = some ⟨o, .step q next⟩) {k : Int} {slot : Slot} {s : Session}
    (writes : q.slot? = some k) (held : h.tables.slots.get? k = some slot) (stored : h.tables.find? slot.session = some s)
    (finished : s.status ≠ .ongoing) (now : Instant) :
    (h.acted i now next).tables = h.tables ∧
      ∃ rest, (h.acted i now next).callers[i]? = some ⟨o, rest⟩ ∧ rest.FailsWithin 3 := by
  obtain ⟨answer, eq, refused⟩ := World.refused_of_finished (w := { h.world with now := now }) writes held stored finished
  have heeded := (sound.heeds here answer).2 (by simp [writes]) refused
  refine ⟨?_, next answer, ?_, heeded⟩
  · show (World.handle q { h.world with now := now }).2.tables = _
    rw [eq]
    rfl
  · rw [callers_acted_self here, eq]
    rfl

/-- A caller that fails within some accesses gives no value, and has failed when it has made them. -/
theorem fails_play {rest : Call o.Result} {n : Nat} (here : h.callers[i]? = some ⟨o, rest⟩) (fails : rest.FailsWithin n)
    (events : List Event) : (h.play events).isDone i = false ∧
      (n ≤ events.countP (·.isOf i) → ((h.play events).error? i).isSome) := by
  obtain ⟨rest', there, fails'⟩ := comes_play (fun e => ⟨e, rfl⟩) here fails events
  cases rest' with
  | done a =>
    obtain ⟨e, eq⟩ := comes_done.1 fails'
    cases eq
  | failed e => exact ⟨by simp only [isDone, there], fun _ => by simp only [error?, there, Option.isSome_some]⟩
  | step q next =>
    refine ⟨by simp only [isDone, there], fun turns => ?_⟩
    rw [Nat.sub_eq_zero_of_le turns] at fails'
    cases fails'

/-- A receipt stands for an answer that is stored as long as its session is, until its slot is written again. -/
theorem answered_of_receipt (sound : h.Sound) {token : String} {sequence : Int} {payload : Json.Value} {receipt : Exam.Receipt}
    (told : h.callers[i]? = some ⟨.submit token sequence payload, .done receipt⟩) :
    ∃ newer d older s slot a, h.log = newer ++ d :: older ∧ d.caller = i ∧ (∀ e ∈ newer, e.caller ≠ i) ∧
      d.Answers token sequence payload receipt s slot a ∧
      ∀ {s'}, h.tables.find? s.id = some s' → h.tables.answers.get? slot.id = some a ∨ ∃ e ∈ newer, e.Writes slot.id := by
  have vouched : Exam.Operation.Vouches (.submit token sequence payload) receipt (h.view i) := sound.accounts told
  obtain ⟨d, own, s, slot, a, deeds, stored⟩ := vouched.proves
  obtain ⟨newer, older, log, others, mine, -⟩ := List.filter_eq_cons_iff.1 deeds
  refine ⟨newer, d, older, s, slot, a, log, by simpa using mine, by simpa using others, stored, ?_⟩
  intro s' there
  have recorded := sound.recorded
  rw [log] at recorded
  obtain ⟨step, before⟩ := recorded.upTo.step
  have evolves := step.evolves.trans before.valid.consistent recorded.follows.evolves
  have found := (before.valid.consistent.findByToken?_iff.1 stored.found).1
  have listed := stored.listed
  rw [← evolves.slots found there] at listed
  have held := (sound.valid.consistent.mem_slotsOf_iff.1 listed).1
  rw [← stored.slot_eq] at held ⊢
  exact recorded.answer stored.access stored.taken held

/-- **Answers among many callers**, in whatever order they act and whatever the clock shows. The count of a completed
session is that of its right answers, and neither changes any more. A write to one of its slots changes nothing;
its caller gets no value, and has failed after at most three more accesses. A receipt stands for an
answer that is stored as long as its session is, until a later write to its slot takes effect. -/
theorem answers_play (catalog : Catalog) (now : Instant) (quota : Option Quota) (events : List Event) :
    let h := (start catalog now quota).play events
    (∀ {id s}, h.tables.find? id = some s → s.status = .completed →
      s.correctCount = some ((h.tables.answersOf id).countP (·.isCorrect) : Int) ∧
        ∀ more, (h.play more).tables.find? id = some s ∧ (h.play more).tables.answersOf id = h.tables.answersOf id) ∧
    (∀ {i q k slot s}, h.access? i = some q → q.slot? = some k → h.tables.slots.get? k = some slot →
      h.tables.find? slot.session = some s → s.status = .completed → ∀ now,
        let g := h.act (.acts i now)
        g.tables = h.tables ∧ ∀ more : List Event, (g.play more).isDone i = false ∧
          (3 ≤ more.countP (·.isOf i) → ((g.play more).error? i).isSome)) ∧
    ∀ {i token sequence payload receipt}, h.callers[i]? = some ⟨.submit token sequence payload, .done receipt⟩ →
      ∃ newer d older s slot a, h.log = newer ++ d :: older ∧ d.caller = i ∧ (∀ e ∈ newer, e.caller ≠ i) ∧
        d.Answers token sequence payload receipt s slot a ∧
        ∀ {s'}, h.tables.find? s.id = some s' → h.tables.answers.get? slot.id = some a ∨ ∃ e ∈ newer, e.Writes slot.id := by
  intro h
  have sound := sound_play catalog now quota events
  refine ⟨?_, ?_, fun told => answered_of_receipt sound told⟩
  · intro id s stored completed
    refine ⟨sound.valid.correctCount_eq stored completed, fun more => ?_⟩
    have evolves := (sound.play more).2.evolves
    have finished : s.status ≠ .ongoing := by simp [completed]
    exact ⟨evolves.ended stored finished, evolves.answersOf_eq stored finished⟩
  · intro i q k slot s waits writes held stored completed now g
    obtain ⟨o, next, here⟩ := exists_of_access? waits
    have finished : s.status ≠ .ongoing := by simp [completed]
    obtain ⟨same, rest, there, fails⟩ := fails_of_finished sound here writes held stored finished now
    have eq : g = h.acted i now next := act_acts here
    rw [eq]
    exact ⟨same, fun more => fails_play there fails more⟩

/-- A right answer is stored, and a wrong one is overtaken by the completion, after it was checked and before it is
written: the right one counts for good, and the caller of the wrong one is told why that is not taken. -/
theorem answers_play_of_overtaken_answer :
    let h := Sample.starts.play (Sample.opens ++ [.enters (.submit "T" 1 (.string "B")) rfl,
      .enters (.submit "T" 1 (.string "A")) rfl, .enters (.complete "T") rfl] ++
      Sample.turns [1, 1, 1, 1, 1, 1, 2, 2, 2, 2, 2, 3, 3, 3])
    let g := h.act (.acts 2 ⟨1, false⟩)
    let scored := (Course.Sample.session 1).completed [true] ⟨1, false⟩
    (∃ d ∈ h.log, d.caller = 1 ∧ ∃ s slot a, d.Answers "T" 1 (.string "B") ⟨1, true, ⟨1, false⟩⟩ s slot a) ∧
      h.access? 2 = some (.record ⟨1, .option .a, false, ⟨1, false⟩⟩) ∧ g.tables = h.tables ∧
      (g.play (Sample.turns [2, 2])).error? 2 = some (.state (.closed .completed)) ∧
      ∀ more, (h.play more).tables.find? 1 = some scored ∧
        (h.play more).tables.answersOf 1 = [⟨1, .option .b, true, ⟨1, false⟩⟩] := by
  intro h g scored
  have told : h.callers[1]? = some ⟨.submit "T" 1 (.string "B"), .done ⟨1, true, ⟨1, false⟩⟩⟩ := rfl
  have waits : h.access? 2 = some (.record ⟨1, .option .a, false, ⟨1, false⟩⟩) := by decide +kernel
  have held : h.tables.slots.get? 1 = some ⟨1, 1, 7, 1, .singleChoice⟩ := by decide +kernel
  have stored : h.tables.find? 1 = some scored := by decide +kernel
  have given : h.tables.answersOf 1 = [⟨1, .option .b, true, ⟨1, false⟩⟩] := by decide +kernel
  obtain ⟨counted, refused, receipts⟩ := answers_play Course.Sample.catalog ⟨0, false⟩ none _
  obtain ⟨newer, d, older, s, slot, a, log, own, -, answers, -⟩ := receipts told
  have logged : d ∈ h.log := log ▸ List.mem_append_right newer List.mem_cons_self
  refine ⟨⟨d, logged, own, s, slot, a, answers⟩, waits, (refused waits rfl held stored rfl _).1, by decide +kernel, ?_⟩
  rw [← given]
  exact (counted stored rfl).2

end Hall

end Proctor
