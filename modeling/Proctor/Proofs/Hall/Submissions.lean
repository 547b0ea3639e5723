import Proctor.Proofs.Exam.Overwriting
import Proctor.Proofs.Hall.Serving

/-!
# Answers and what becomes of them

In a hall that has arisen somehow, an answer is written just if its slot may be answered and the question accepts it, and it changes
nothing but the answer of this slot. When the slot is answered again or cleared, whatever operations came in between, nothing is left of
the answer (`run_of_later`): meanwhile it was seen, but it led to nothing, as the session was not completed. `run_submit` says all
this in terms of runs.
-/

set_option autoImplicit false

namespace Proctor

open Exam

/-- A slot that is sealed stays so. -/
theorem Tables.Sealed.later {t u : Tables} {k : Int} (h : t.Sealed k) (valid : t.Valid) (follows : t.Follows u) : u.Sealed k := by
  obtain ⟨slot, s, held, stored, finished⟩ := h
  have stored' := follows.evolves.ended stored finished
  have listed : slot ∈ t.slotsOf slot.session := Tables.mem_slotsOf.2 ⟨rfl, k, held⟩
  rw [← follows.evolves.slots stored stored'] at listed
  have held' := (follows.valid.consistent.mem_slotsOf_iff.1 listed).1
  rw [valid.consistent.slot_id held] at held'
  exact ⟨slot, s, held', stored', finished⟩

variable {w : World} {k : Int} {a? : Option Answer}

/-- **Any operations** in two worlds that differ in one answer: they still differ in that answer at most, or its slot is sealed. -/
theorem World.serveAll_answering (arises : w.Arises) (arises' : (w.answering k a?).Arises) (xs : List Timed) :
    (∃ b?, (w.answering k a?).serveAll xs = (w.serveAll xs).answering k b?) ∨ ((w.answering k a?).serveAll xs).tables.Sealed k := by
  induction xs generalizing w a? with
  | nil => exact .inl ⟨a?, rfl⟩
  | cons x xs ih =>
    obtain ⟨next, -⟩ := arises.serve x
    obtain ⟨next', -⟩ := arises'.serve x
    obtain ⟨b?, same⟩ | finished := Operation.run_answering (w := { w with now := x.instant }) arises.valid arises'.valid
      (arises.stocked.at x.instant) x.operation
    · have same : (w.answering k a?).serve x = (w.serve x).answering k b? := same
      show (∃ b?, ((w.answering k a?).serve x).serveAll xs = ((w.serve x).serveAll xs).answering k b?) ∨
        (((w.answering k a?).serve x).serveAll xs).tables.Sealed k
      rw [same] at next' ⊢
      exact ih next next'
    · exact .inr (Tables.Sealed.later finished next'.valid (next'.serveAll xs).2)

/-- Only operations that fit write. -/
theorem World.Writes.fits {o : Operation} {r : o.Result} (writes : w.Writes o r k a?) (valid : w.tables.Valid) : o.fits = true := by
  cases writes with
  | submit accepts => exact accepts.toNumbers.holds valid
  | clear opened => exact opened.toNumbers.holds valid

/-- What is written leads to a world that can arise. -/
theorem World.Arises.answering {o : Operation} {r : o.Result} (arises : w.Arises) (writes : w.Writes o r k a?) :
    (w.answering k a?).Arises := by
  have served : w.serve ⟨o, w.now, writes.fits arises.valid⟩ = w.answering k a? :=
    congrArg Prod.snd (run_of_writes arises.valid arises.stocked writes)
  exact served ▸ (arises.serve _).1

namespace Exam

variable {o o' : Operation} {r : o.Result} {r' : o'.Result} {place : String × Int} {u v : World}

/-- **What is written to a slot later** is what would have been written if it had not been written to before, and leads to the same
world. -/
theorem run_of_later (arises : w.Arises) (addressed : o.place? = some place) (addressed' : o'.place? = some place)
    (first : o.call.run World.handle w = (.ok r, u)) (between : List Timed) {later : Instant}
    (second : o'.call.run World.handle { u.serveAll between with now := later } = (.ok r', v)) :
    ∃ k b?, World.Writes { w.serveAll between with now := later } o' r' k b? ∧
      v = World.answering { w.serveAll between with now := later } k b? := by
  obtain ⟨k, a?, writes, rfl⟩ := exists_writes arises.valid arises.stocked addressed first
  have arises' := arises.answering writes
  obtain ⟨s, slot, before, rfl⟩ := writes.opened addressed
  obtain ⟨last, follows⟩ := arises.serveAll between
  obtain ⟨last', follows'⟩ := arises'.serveAll between
  obtain ⟨j, b?, writes', rfl⟩ := exists_writes (w := { (w.answering slot.id a?).serveAll between with now := later }) last'.valid
    (last'.stocked.at later) addressed' second
  rcases World.serveAll_answering arises arises' between with ⟨c?, same⟩ | ⟨slot', s', held, stored, finished⟩
  · rw [same] at writes' last'
    have writes' : World.Writes { w.serveAll between with now := later } o' r' j b? :=
      World.writes_answering (w := { w.serveAll between with now := later }).1 writes'
    refine ⟨j, b?, writes', ?_⟩
    rw [same]
    obtain ⟨s', slot', opened, rfl⟩ := writes'.opened addressed'
    by_cases here : slot'.id = slot.id
    · rw [here]
      exact World.answering_answering { w.serveAll between with now := later } slot.id c? b?
    -- The number is that of another slot now, so the one before is gone, with its answer.
    · have absent : (w.serveAll between).tables.slots.get? slot.id = none := by
        refine Option.eq_none_iff_forall_ne_some.2 fun slot₁ held => here ?_
        obtain ⟨-, s₁, there⟩ := before.toNumbers.later arises.valid follows held
        obtain ⟨-, rfl⟩ := there.unique last.valid.consistent opened.toNumbers
        rfl
      rw [World.answering_of_absent last.valid last'.valid absent]
  -- The session has ended, so nothing more is written to its slots.
  · obtain ⟨s₁, slot₁, opened, rfl⟩ := writes'.opened addressed'
    have before' : (w.answering slot.id a?).OpenSlot place.1 place.2 s slot := World.openSlot_answering.2 before
    obtain ⟨rfl, s₂, there⟩ := before'.toNumbers.later arises'.valid follows' held
    obtain ⟨rfl, -⟩ := there.unique last'.valid.consistent opened.toNumbers
    obtain rfl := Option.some.inj (stored.symm.trans (there.own ▸ there.stored))
    exact absurd opened.ongoing finished

end Exam

namespace Hall

variable {h : Hall}

/-- **An answer** with nothing in between, however the hall has arisen and whatever the clock shows. It is taken just if
its slot may be answered and the question of the slot accepts it, and else it is refused for the first reason against it, once the session
has been looked at. When it is taken, it becomes the answer of its slot, with the verdict of the question and the instant, and nothing
else changes, so taking it once more changes nothing at all. Whatever operations come then, another answer to the slot that is
taken, or the removal of its answer, gives what it would give if this one had not been taken. What two operations write to different slots
is the same in either order. -/
theorem run_submit (arises : h.Arises) (now : Instant) (token : String) (sequence : Int) (payload : Json.Value) :
    let w : World := { h.world with now := now }
    let taken := (submit token sequence payload).run World.handle
    ((∃ r u, taken w = (.ok r, u)) ↔ ∃ s slot q value, w.Accepts token sequence payload s slot q value) ∧
      (∀ e u, taken w = (.error e, u) ↔ w.Refused token sequence payload e ∧ u = w.lookedAt token) ∧
      (∀ r u, taken w = (.ok r, u) →
        (∃ s slot q value, w.Accepts token sequence payload s slot q value ∧ r = ⟨sequence, q.details.grades value, now⟩ ∧
          u = w.answering slot.id (some ⟨slot.id, value, q.details.grades value, now⟩)) ∧
        taken u = (.ok r, u) ∧
        ∀ (between : List Timed) (later : Instant),
          let w' : World := { w.serveAll between with now := later }
          let u' : World := { u.serveAll between with now := later }
          (∀ payload' r' v, (submit token sequence payload').run World.handle u' = (.ok r', v) →
            (submit token sequence payload').run World.handle w' = (.ok r', v)) ∧
          ∀ v, (clear token sequence).run World.handle u' = (.ok (), v) →
            ∃ s slot, w'.OpenSlot token sequence s slot ∧ v = w'.answering slot.id none) ∧
      ∀ (o o' : Operation) (place place' : String × Int), o.place? = some place → o'.place? = some place' → place ≠ place' →
        ∀ (later : Instant) (r : o.Result) (r' : o'.Result) (u v : World), o.call.run World.handle w = (.ok r, u) →
          o'.call.run World.handle { u with now := later } = (.ok r', v) →
          ∃ u', o'.call.run World.handle { w with now := later } = (.ok r', u') ∧
            o.call.run World.handle { u' with now := now } = (.ok r, { v with now := now }) := by
  intro w taken
  have here : w.Arises := ⟨h, arises, rfl⟩
  have valid := here.valid
  have stocked := here.stocked
  have addressed : (Operation.submit token sequence payload).place? = some (token, sequence) := rfl
  refine ⟨⟨?_, ?_⟩, fun e u => ⟨fun told => ?_, ?_⟩, fun r u told => ⟨?_, ?_, fun between later => ⟨?_, ?_⟩⟩, ?_⟩
  · rintro ⟨r, u, told⟩
    obtain ⟨k, a?, writes, -⟩ := exists_writes valid stocked addressed told
    cases writes with
    | submit accepts => exact ⟨_, _, _, _, accepts⟩
  · rintro ⟨s, slot, q, value, accepts⟩
    exact ⟨_, _, run_of_writes valid stocked (.submit accepts)⟩
  · obtain ⟨s, slot, q, value, accepts⟩ | ⟨e', refused⟩ := accepts_cases valid stocked token sequence payload
    · cases told.symm.trans (run_of_writes valid stocked (.submit accepts))
    · cases told.symm.trans (run_of_refused valid stocked refused)
      exact ⟨refused, rfl⟩
  · rintro ⟨refused, rfl⟩
    exact run_of_refused valid stocked refused
  · obtain ⟨k, a?, writes, rfl⟩ := exists_writes valid stocked addressed told
    cases writes with
    | submit accepts => exact ⟨_, _, _, _, accepts, rfl, rfl⟩
  · obtain ⟨k, a?, writes, rfl⟩ := exists_writes valid stocked addressed told
    exact run_again valid stocked writes
  · intro payload' r' v second
    have same : (Operation.submit token sequence payload').place? = some (token, sequence) := rfl
    obtain ⟨k, b?, writes, rfl⟩ := run_of_later here addressed same told between second
    obtain ⟨last, -⟩ := here.serveAll between
    exact run_of_writes (w := { w.serveAll between with now := later }) last.valid (last.stocked.at later) writes
  · intro v second
    have same : (Operation.clear token sequence).place? = some (token, sequence) := rfl
    obtain ⟨k, b?, writes, rfl⟩ := run_of_later here addressed same told between second
    cases writes with
    | clear opened => exact ⟨_, _, opened, rfl⟩
  · intro o o' place place' one other ne later r r' u v first second
    exact run_comm valid stocked one other ne first second

namespace Sample

/-- A session with two questions is open. -/
def paired : Hall :=
  (start (.ofList [⟨7, ⟨1, 1, none⟩, "2 + 2", .choice ⟨⟨"3", "4", "5", "6"⟩, .b⟩⟩,
    ⟨8, ⟨1, 1, none⟩, "3 + 3", .choice ⟨⟨"3", "4", "5", "6"⟩, .d⟩⟩]) ⟨0, false⟩ none).play
    (.enters (.create Course.Sample.user ⟨⟨1, 1, none⟩, 30, 2⟩ ⟨"T", []⟩) rfl :: List.replicate 4 (.acts 0 ⟨0, false⟩))

theorem arises_paired : paired.Arises := Arises.play (.start _ _ _) _

/-- The world after an operation that gives this. -/
theorem run_of_gives {α : Type} {c : Call α} {w : World} {a : α} (gives : (c.run World.handle w).1 = .ok a) :
    c.run World.handle w = (.ok a, (c.run World.handle w).2) := Prod.ext gives rfl

end Sample

/-- Both questions are answered, and then the first one once more: this gives what it would give if it had not been answered before, and
the two answers may change places. -/
theorem run_submit_of_two_questions :
    let answer (sequence : Int) (option : String) := (submit "T" sequence (.string option)).run World.handle
    let w : World := { Sample.paired.world with now := ⟨1, false⟩ }
    let u := (answer 1 "D" w).2
    let v := (answer 2 "A" { u with now := ⟨2, false⟩ }).2
    let between : List Timed := [⟨.submit "T" 2 (.string "A"), ⟨2, false⟩, rfl⟩]
    let right : Receipt := ⟨1, true, ⟨1, false⟩⟩
    Sample.paired.Arises ∧ answer 1 "D" w = (.ok right, u) ∧ answer 1 "D" u = (.ok right, u) ∧
      (∃ v', answer 1 "A" { u.serveAll between with now := ⟨3, false⟩ } = (.ok ⟨1, false, ⟨3, false⟩⟩, v') ∧
        answer 1 "A" { w.serveAll between with now := ⟨3, false⟩ } = (.ok ⟨1, false, ⟨3, false⟩⟩, v')) ∧
      answer 2 "A" { u with now := ⟨2, false⟩ } = (.ok ⟨2, false, ⟨2, false⟩⟩, v) ∧
      ∃ u', answer 2 "A" { w with now := ⟨2, false⟩ } = (.ok ⟨2, false, ⟨2, false⟩⟩, u') ∧
        answer 1 "D" { u' with now := ⟨1, false⟩ } = (.ok right, { v with now := ⟨1, false⟩ }) := by
  intro answer w u v between right
  have first : answer 1 "D" w = (.ok right, u) := Sample.run_of_gives (by decide +kernel)
  have second : answer 2 "A" { u with now := ⟨2, false⟩ } = (.ok ⟨2, false, ⟨2, false⟩⟩, v) :=
    Sample.run_of_gives (by decide +kernel)
  have last : (answer 1 "A" { u.serveAll between with now := ⟨3, false⟩ }).1 = .ok ⟨1, false, ⟨3, false⟩⟩ := by decide +kernel
  have third := Sample.run_of_gives last
  obtain ⟨-, -, taken, moved⟩ := run_submit Sample.arises_paired ⟨1, false⟩ "T" 1 (.string "D")
  obtain ⟨-, again, later⟩ := taken right u first
  have replaced := (later between ⟨3, false⟩).1 (.string "A") _ _ third
  refine ⟨Sample.arises_paired, first, again, ⟨_, third, replaced⟩, second, ?_⟩
  exact moved (.submit "T" 1 (.string "D")) (.submit "T" 2 (.string "A")) _ _ rfl rfl (by decide) ⟨2, false⟩ right _ u v first second

end Hall

end Proctor
