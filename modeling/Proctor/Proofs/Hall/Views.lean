import Proctor.Proofs.Exam.Alone
import Proctor.Proofs.Exam.Agreement
import Proctor.Proofs.Hall.Arising

/-!
# The views of a session agree

However a hall has arisen, its tables have what the views of a session need (`Arises.coherent`). So at any instant
`get`, `questions` and `detail` tell the same of a session (`views_agree`), whichever of them comes first.
-/

set_option autoImplicit false

namespace Proctor.Hall

open Exam

variable {h : Hall}

/-- **The views of a session agree**, however the hall has arisen and whatever the clock shows, and whether somebody has looked at the
session at this instant before or not. There are as many answers in `get` as there are rows of answers to the slots of
the session, and as many items of its sheet, while it is open, or else of its review are answered. These succeed
and list the slots by their numbers from 1 up to the total, each with its question. An item is answered just if
what is sent of it has an answer, and only then it can be right; the count of a completed session is that of the right items. -/
theorem views_agree (arises : h.Arises) (now : Instant) {id : Int} {s : Session} (stored : h.tables.find? id = some s) :
    let w : World := { h.world with now := now }
    let rows := w.tables.answerRows id
    w.tables.answerCount id = rows.length ∧
    ∀ u, u = w ∨ u = w.lookedAt s.token →
      (∃ shot, (get s.token).run World.handle u = (.ok shot, w.lookedAt s.token) ∧ shot.session = s.asOf now ∧
        shot.answered = rows.length) ∧
      (s.isOpen now = true → ∃ sheet, (questions s.token).run World.handle u = (.ok sheet, w.lookedAt s.token) ∧
        w.Lists s (sheet.items.map (·.outline)) ∧
        ∀ item ∈ sheet.items, Marked item.outline.answered ["current_answer"] item.json) ∧
      (s.isOpen now = false → ∃ review, (detail s.token).run World.handle u = (.ok review, w.lookedAt s.token) ∧
        review.session = s.asOf now ∧ w.Lists s (review.items.map (·.outline)) ∧
        (∀ item ∈ review.items, Marked item.outline.answered ["student_answer", "answered_at"] item.json ∧
          item.json.field? "is_correct" = some (.bool item.isCorrect) ∧
          (item.isCorrect = true → item.outline.answered = true)) ∧
        (s.status = .completed → s.correctCount = some (review.items.countP (·.isCorrect) : Int))) := by
  intro w rows
  have coherent := arises.coherent
  have valid : w.tables.Valid := coherent.sound.valid
  have stocked : w.Stocked := ⟨coherent.stocked.keyed, coherent.stocked.offered⟩
  have suited : w.tables.Suited := coherent.suited
  obtain rfl := valid.consistent.session_id stored
  refine ⟨?_, fun u looked => ?_⟩
  · rw [← Tables.length_answersOf, (valid.consistent.perm_answersOf s.id).length_eq]
  have alike : ∀ {o : Operation}, o.token? = some s.token → o.call.run World.handle u = o.call.run World.handle w := by
    intro o addressed
    obtain rfl | rfl := looked
    · rfl
    · exact Operation.run_call_lookedAt valid addressed
  refine ⟨?_, fun isOpen => ?_, fun closed => ?_⟩
  · rw [show (get s.token).run World.handle u = _ from alike (o := .get s.token) rfl]
    exact run_get valid stored
  · rw [show (questions s.token).run World.handle u = _ from alike (o := .questions s.token) rfl]
    obtain ⟨sheet, told, lists⟩ := run_questions valid stocked stored isOpen
    exact ⟨sheet, told, lists, fun item _ => item.marked_json⟩
  · rw [show (detail s.token).run World.handle u = _ from alike (o := .detail s.token) rfl]
    obtain ⟨review, told, session, lists, shown, counted⟩ := run_detail valid stocked suited stored closed
    refine ⟨review, told, session, lists, fun item listed => ?_, counted⟩
    exact ⟨ReviewItem.marked_json (shown item listed), item.field?_is_correct, ReviewItem.isSome_of_isCorrect⟩

namespace Sample

/-- What may be seen of a matching and of a choice. -/
def contents : List Content :=
  [⟨8, "match", .matching [⟨1, "item"⟩] [⟨11, "slot"⟩]⟩, ⟨7, "2 + 2", .choice ⟨"3", "4", "5", "6"⟩⟩]

/-- A session has got an answer to the choice, and then one more question was put into the catalog. -/
def answered : Hall :=
  ((start (.ofList [⟨7, ⟨1, 1, none⟩, "2 + 2", .choice ⟨⟨"3", "4", "5", "6"⟩, .b⟩⟩,
      ⟨8, ⟨1, 1, none⟩, "match", .matching ⟨[⟨1, "item"⟩], [⟨11, "slot"⟩], .ofList [(1, 11)]⟩⟩]) ⟨0, false⟩ none).play
    (.enters (.create Course.Sample.user ⟨⟨1, 1, none⟩, 40, 2⟩ ⟨"T", []⟩) rfl :: List.replicate 4 (.acts 0 ⟨0, false⟩) ++
      .enters (.submit "T" 2 (.string "B")) rfl :: List.replicate 6 (.acts 1 ⟨0, false⟩))).insert
    ⟨9, ⟨1, 2, none⟩, "3 + 3", .choice ⟨⟨"3", "4", "5", "6"⟩, .d⟩⟩

theorem arises_answered : answered.Arises := by
  refine .insert (Arises.play (.start _ _ _) _) (fun i => ?_) (by decide +kernel)
  rcases i with _ | _ | i
  all_goals rfl

/-- The session that is stored then. -/
def session : Session := { Course.Sample.session 1 with minutes := 40, deadline := ⟨2400000000000, false⟩, total := 2 }

end Sample

/-- A session with a matching and a choice has one answer: `get` counts it, the sheet shows it of the choice, and so does the review when the session is
over. -/
theorem views_agree_of_answered :
    let h := Sample.answered
    let s := Sample.session
    let w : World := { h.world with now := ⟨1, false⟩ }
    let v : World := { h.world with now := ⟨2400000000001, false⟩ }
    h.tables.find? 1 = some s ∧
      (∃ shot sheet, ((get "T").run World.handle w).1 = .ok shot ∧ shot.answered = 1 ∧
        ((questions "T").run World.handle w).1 = .ok sheet ∧ (sheet.items.map (·.outline)).countP (·.answered) = 1 ∧
        sheet.items.map (·.content) = Sample.contents ∧ sheet.items.map (·.kind) = [.dragDrop, .singleChoice]) ∧
      ∃ review, ((detail "T").run World.handle v).1 = .ok review ∧ review.session.status = .timeout ∧
        (review.items.map (·.outline)).countP (·.answered) = 1 ∧
        review.items.map (·.content) = Sample.contents ∧ review.items.map (·.kind) = [.dragDrop, .singleChoice] := by
  intro h s w v
  have stored : h.tables.find? 1 = some s := by decide +kernel
  have rows : (h.tables.answerRows 1).length = 1 := by decide +kernel
  obtain ⟨-, views⟩ := views_agree Sample.arises_answered ⟨1, false⟩ stored
  obtain ⟨⟨shot, got, -, counted⟩, listed, -⟩ := views w (.inl rfl)
  obtain ⟨sheet, told, lists, -⟩ := listed (by decide)
  obtain ⟨-, views'⟩ := views_agree Sample.arises_answered ⟨2400000000001, false⟩ stored
  obtain ⟨-, -, reviewed⟩ := views' v (.inl rfl)
  obtain ⟨review, told', session, lists', -⟩ := reviewed (by decide)
  have told : ((questions "T").run World.handle w).1 = .ok sheet := congrArg Prod.fst told
  have told' : ((detail "T").run World.handle v).1 = .ok review := congrArg Prod.fst told'
  have shown : ((questions "T").run World.handle w).1.toOption.map (fun sheet => (sheet.items.map (·.content), sheet.items.map (·.kind))) =
      some (Sample.contents, [.dragDrop, .singleChoice]) := by decide +kernel
  have shown' : ((detail "T").run World.handle v).1.toOption.map (fun review => (review.items.map (·.content), review.items.map (·.kind))) =
      some (Sample.contents, [.dragDrop, .singleChoice]) := by decide +kernel
  rw [told] at shown
  rw [told'] at shown'
  obtain ⟨contents, kinds⟩ := Prod.mk.inj (Option.some.inj shown)
  obtain ⟨contents', kinds'⟩ := Prod.mk.inj (Option.some.inj shown')
  refine ⟨stored, ⟨shot, sheet, congrArg Prod.fst got, counted.trans rows, told, lists.answered.trans rows, contents, kinds⟩,
    review, told', ?_, lists'.answered.trans rows, contents', kinds'⟩
  rw [session]
  rfl

end Proctor.Hall
