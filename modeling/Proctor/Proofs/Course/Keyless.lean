import Proctor.Proofs.Course.Scoring
import Proctor.Proofs.Exam.Keyless

/-!
# Courses with other keys

The same turns are taken with two catalogs that differ in their keys only. The courses go on side by
side (`keyless_play`): each turn comes to the same, apart from whether an answer is right, and so do the
tables, apart from grades and from the scores of sessions that are completed.
-/

set_option autoImplicit false

namespace Proctor

open Call

/-- The same operation has come to the same, as far as the result does not tell about keys. -/
inductive Entry.Alike : Entry → Entry → Prop where
  | intro {o : Exam.Operation} {r r' : Except Error o.Result} (agree : Agree o.Alike r r') : Entry.Alike ⟨o, r⟩ ⟨o, r'⟩

theorem World.Alike.perform {v w : World} (h : v.Alike w) (o : Exam.Operation) (clock : Nat → Instant) :
    Agree o.Alike (v.perform o clock).1 (w.perform o clock).1 ∧ (v.perform o clock).2.Alike (w.perform o clock).2 := by
  obtain ⟨agree, after⟩ := o.keyless_call ⟨v, clock⟩ ⟨w, clock⟩ ⟨h, rfl⟩
  exact ⟨agree, after.world⟩

namespace Course

/-- Two courses side by side. -/
structure Alike (a b : Course) : Prop where
  world : a.world.Alike b.world
  log : List.Forall₂ Entry.Alike a.log b.log

variable {a b : Course}

/-- **One turn.** -/
theorem Alike.take (h : a.Alike b) (x : Turn) : (a.take x).Alike (b.take x) := by
  obtain ⟨agree, after⟩ := h.world.perform x.operation x.clock
  exact ⟨after, .cons (.intro agree) h.log⟩

/-- **Any turns.** -/
theorem Alike.play (h : a.Alike b) (turns : List Turn) : (a.play turns).Alike (b.play turns) := by
  induction turns generalizing a b with
  | nil => exact h
  | cons x turns ih => exact ih (h.take x)

/-- **Keys do not leak**, whatever the turns are. With catalogs that have the same questions with other keys, every operation
gives a value in both courses or fails in both with the same error. What it tells is the same but for
whether an answer is right, for the scores of sessions that are completed, and for the right answers that a review shows when the session
has ended; and but for grades and these scores, nothing that is stored differs. -/
theorem keyless_play {catalog other : Catalog} (alike : catalog.Alike other) (now : Instant) (quota : Option Quota) (turns : List Turn) :
    let a := (start catalog now quota).play turns
    let b := (start other now quota).play turns
    List.Forall₂ Entry.Alike a.log b.log ∧ a.tables.Alike b.tables := by
  intro a b
  have starts : (start catalog now quota).Alike (start other now quota) := ⟨⟨.refl ∅, alike, rfl, rfl⟩, .nil⟩
  have plays : a.Alike b := starts.play turns
  exact ⟨plays.log, plays.world.tables⟩

namespace Sample

/-- The same question, to which A is the right answer. -/
def rekeyed : Catalog := .ofList [⟨7, ⟨1, 1, none⟩, "2 + 2", .choice ⟨⟨"3", "4", "5", "6"⟩, .a⟩⟩]

end Sample

/-- The answer is right with one key and wrong with the other, and so the session gets another score, but nothing else. -/
theorem keyless_play_of_rekeyed :
    let turns := [Sample.opens, Sample.answers, Sample.completes]
    let a := (start Sample.catalog ⟨0, false⟩ none).play turns
    let b := (start Sample.rekeyed ⟨0, false⟩ none).play turns
    a.tables.find? 1 ≠ b.tables.find? 1 ∧ List.Forall₂ Entry.Alike a.log b.log ∧ a.tables.Alike b.tables := by
  intro turns a b
  have alike : Sample.catalog.Alike Sample.rekeyed := Catalog.alike_ofList rfl
  exact ⟨by decide +kernel, keyless_play alike ⟨0, false⟩ none turns⟩

end Course

end Proctor
