import Proctor.Proofs.Course.Scoring
import Proctor.Proofs.Exam.Replaced
import Proctor.Proofs.Exam.Stock

/-!
# Catalogs that change between operations

Operations are carried out one after the other, and questions are put into the catalog in between, also in place of others
(`World.Revised`). A slot never loses its question (`Revised.supplied`), and keeps one of its kind as long as no question takes the place of one of
the other kind (`Revised.stocked`). `sheet_agrees` compares the sheet of a session with what becomes of the answers to it.
-/

set_option autoImplicit false

namespace Proctor

namespace World

/-- The worlds that can be reached by operations, each from its first access to its last, and by questions that are put into the
catalog in between, as far as `may` says that they may. -/
inductive Revised (may : Catalog → Question → Prop) : World → Prop where
  | start (now : Instant) (quota : Option Quota) : Revised may (start ∅ now quota)
  | turn {w : World} (revised : Revised may w) (x : Turn) : Revised may (w.perform x.operation x.clock).2
  | insert {w : World} (revised : Revised may w) {q : Question} (allowed : may w.catalog q) :
      Revised may (w.insert q)

variable {w : World} {may : Catalog → Question → Prop}

/-- An operation makes slots for questions of the catalog only. -/
theorem stocks_perform (w : World) (o : Exam.Operation) (clock : Nat → Instant) : w.Stocks (w.perform o clock).2 := by
  have stocks := (o.stocks_call w).since (.of_slots rfl id) fun _ _ => Stocks.trans
  have ready (v : Ticking) (q : Access) : v.world.Stocks (v.ready q).world := by
    refine .of_slots (by cases q <;> rfl) fun {k slot} held => ?_
    rwa [v.tables_ready] at held
  exact (Ticking.meets_run (w := ⟨w, clock⟩) stocks (fun v q _ => ready v q) (fun _ _ _ => trivial) trivial).1

namespace Revised

theorem valid (revised : w.Revised may) : w.tables.Valid := by
  induction revised with
  | start now quota => exact Tables.valid_empty
  | turn _ x ih => exact (follows_perform ih x.fits x.clock).valid
  | insert _ _ ih => exact ih

/-- **A slot never loses its question.** -/
theorem supplied (revised : w.Revised may) : w.Supplied := by
  induction revised with
  | start now quota => exact ⟨Catalog.keyed_ofList [], fun held => by cases held⟩
  | turn _ x ih => exact ih.of_stocks (stocks_perform _ x.operation x.clock)
  | insert _ _ ih => exact ih.insert _

/-- **A slot keeps a question of its kind** if questions are replaced by those of their kind only. -/
theorem stocked (revised : w.Revised may) (keeps : ∀ c q, may c q → c.keepsKind q = true) : w.Stocked := by
  induction revised with
  | start now quota => exact stocked_start (Catalog.keyed_ofList []) now quota
  | turn _ x ih => exact ih.of_stocks (stocks_perform _ x.operation x.clock)
  | insert _ allowed ih => exact ih.insert (keeps _ _ allowed)

end Revised

end World

namespace Course

open Exam

/-- **A sheet and the answers to it**, at any instant in a world that operations and new questions have led to. There is a sheet just of
an open session; it numbers the slots and shows each with its kind and with the content of the question that it has now. An answer
to a slot of the sheet is an internal error just if these two are of different kinds, whatever the answer is. If questions are
replaced by those of their kind only, they never are. -/
theorem sheet_agrees {may : Catalog → Question → Prop} {w₀ : World} (revised : w₀.Revised may) (now : Instant) (token : String) :
    let w : World := { w₀ with now := now }
    ((∃ sheet u, (questions token).run World.handle w = (.ok sheet, u)) ↔
      ∃ s, w.tables.findByToken? token = some s ∧ s.isOpen now = true) ∧
    ∀ sheet u, (questions token).run World.handle w = (.ok sheet, u) →
      u = w ∧ ∃ s, w.tables.findByToken? token = some s ∧
        sheet.items.map (·.sequence) = (List.range s.total.toNat).map (fun k : Nat => (k : Int) + 1) ∧
        ∀ item ∈ sheet.items,
          (∃ slot q, w.tables.slotAt? s.id item.sequence = some slot ∧ w.catalog.get? slot.question = some q ∧
            item.kind = slot.kind ∧ item.content = q.content) ∧
          (∀ payload fault v, (submit token item.sequence payload).run World.handle w = (.error (.internal fault), v) ↔
            item.content.details.kind ≠ item.kind ∧
              fault = .kindMismatch item.content.question item.content.details.kind item.kind ∧ v = w) ∧
          ((∀ c q, may c q → c.keepsKind q = true) → item.content.details.kind = item.kind) := by
  intro w
  have valid : w.tables.Valid := revised.valid
  have supplied : w.Supplied := ⟨revised.supplied.keyed, revised.supplied.kept⟩
  refine ⟨⟨fun ⟨sheet, u, given⟩ => isOpen_of_questions valid given, ?_⟩, fun sheet u given => ?_⟩
  · rintro ⟨s, found, isOpen⟩
    obtain ⟨sheet, given, -⟩ := exists_sheet valid supplied found isOpen
    exact ⟨sheet, w, given⟩
  · obtain ⟨same, s, found, -, numbers, shows⟩ := shows_of_questions valid supplied given
    refine ⟨same, s, found, numbers, fun item listed => ?_⟩
    obtain ⟨slot, q, opened, kept, kind, content⟩ := shows item listed
    have current : item.content.details.kind = q.kind := by rw [content]; exact q.details.kind_withoutKey
    have asked : item.content.question = q.id := by rw [content]; rfl
    refine ⟨⟨slot, q, opened.slotAt? valid.consistent, kept, kind, content⟩, fun payload fault v => ?_, fun keeps => ?_⟩
    · rw [run_submit_internal_iff valid opened kept, current, asked, kind]
    · obtain ⟨q', kept', same⟩ := (revised.stocked keeps).offered opened.held
      obtain rfl := Option.some.inj (kept.symm.trans kept')
      rw [current, same, kind]

namespace Sample

def choice (id : Int) (prompt : String) (correct : Choice) : Question :=
  ⟨id, ⟨1, 1, none⟩, prompt, .choice ⟨⟨"3", "4", "5", "6"⟩, correct⟩⟩

def matching (id : Int) : Question := ⟨id, ⟨1, 1, none⟩, "match", .matching ⟨[⟨1, "item"⟩], [⟨11, "slot"⟩], .ofList [(1, 11)]⟩⟩

def opensTwo : Turn := turn (.create user ⟨⟨1, 1, none⟩, 20, 2⟩ ⟨"T", []⟩) rfl

/-- There are the questions 7 and 8, a session is opened with both, and question 8 is replaced by another choice. -/
def reworded : World :=
  ((((World.start ∅ ⟨0, false⟩ none).insert (choice 7 "2 + 2" .b)).insert (choice 8 "3 + 3" .d)).perform
    opensTwo.operation opensTwo.clock).2.insert (choice 8 "3 + 2" .c)

/-- Then question 7 is replaced by a matching. -/
def replaced : World := reworded.insert (matching 7)

theorem revised_reworded {may : Catalog → Question → Prop} (allowed : ∀ c q, c.keepsKind q = true → may c q) :
    reworded.Revised may := by
  refine .insert (.turn (.insert (.insert (.start _ _) ?_) ?_) opensTwo) ?_
  all_goals exact allowed _ _ (by decide +kernel)

theorem revised_replaced : replaced.Revised fun _ _ => True := .insert (revised_reworded fun _ _ _ => trivial) trivial

/-- The sheet of the session when its slots have these two questions. -/
def sheet (first second : Question) : Sheet :=
  ⟨"T", ⟨1200000000000, false⟩, 1200, [⟨1, .singleChoice, first.content, none⟩, ⟨2, .singleChoice, second.content, none⟩]⟩

theorem questions_replaced :
    (questions "T").run World.handle replaced = (.ok (sheet (choice 8 "3 + 2" .c) (matching 7)), replaced) :=
  Prod.ext (by decide +kernel) rfl

end Sample

/-- While questions have been replaced by those of their kind, no answer to the second slot is an internal error. Once it has a matching, every
answer to it is one, but still none to the first slot. -/
theorem sheet_agrees_of_replaced :
    let v := Sample.reworded
    let w := Sample.replaced
    v.Revised (fun c q => c.keepsKind q = true) ∧ w.Revised (fun _ _ => True) ∧
      (questions "T").run World.handle v = (.ok (Sample.sheet (Sample.choice 8 "3 + 2" .c) (Sample.choice 7 "2 + 2" .b)), v) ∧
      (∀ payload fault u, (submit "T" 2 payload).run World.handle v ≠ (.error (.internal fault), u)) ∧
      (questions "T").run World.handle w = (.ok (Sample.sheet (Sample.choice 8 "3 + 2" .c) (Sample.matching 7)), w) ∧
      (∀ payload fault u, (submit "T" 1 payload).run World.handle w ≠ (.error (.internal fault), u)) ∧
      ∀ payload, (submit "T" 2 payload).run World.handle w =
        (.error (.internal (.kindMismatch 7 .dragDrop .singleChoice)), w) := by
  intro v w
  have kept : v.Revised (fun c q => c.keepsKind q = true) := Sample.revised_reworded fun _ _ keeps => keeps
  have before : (questions "T").run World.handle v =
      (.ok (Sample.sheet (Sample.choice 8 "3 + 2" .c) (Sample.choice 7 "2 + 2" .b)), v) :=
    Prod.ext (by decide +kernel) rfl
  obtain ⟨-, _, -, -, items⟩ := (sheet_agrees kept ⟨0, false⟩ "T").2 _ _ before
  obtain ⟨-, _, -, -, items'⟩ := (sheet_agrees Sample.revised_replaced ⟨0, false⟩ "T").2 _ _ Sample.questions_replaced
  obtain ⟨-, fails, alike⟩ := items _ (.tail _ (.head _))
  obtain ⟨-, fails₁, -⟩ := items' _ (.head _)
  obtain ⟨-, fails₂, -⟩ := items' _ (.tail _ (.head _))
  refine ⟨kept, Sample.revised_replaced, before, fun payload fault u failed => ?_, Sample.questions_replaced,
    fun payload fault u failed => ?_, fun payload => ?_⟩
  · exact ((fails payload fault u).1 failed).1 (alike fun _ _ keeps => keeps)
  · exact ((fails₁ payload fault u).1 failed).1 rfl
  · exact (fails₂ payload _ w).2 ⟨by decide, rfl, rfl⟩

/-- A sheet may show a slot that no answer is taken for, and with a content that is not of the kind of the slot. -/
theorem not_sheet_agrees_always :
    (¬∀ (w₀ : World) (now : Instant) (token : String) (sheet : Sheet) (u : World), w₀.Revised (fun _ _ => True) →
      (questions token).run World.handle { w₀ with now := now } = (.ok sheet, u) → ∀ item ∈ sheet.items, ∀ payload fault v,
        (submit token item.sequence payload).run World.handle u ≠ (.error (.internal fault), v)) ∧
    ¬∀ (w₀ : World) (now : Instant) (token : String) (sheet : Sheet) (u : World), w₀.Revised (fun _ _ => True) →
      (questions token).run World.handle { w₀ with now := now } = (.ok sheet, u) → ∀ item ∈ sheet.items,
        item.kind = item.content.details.kind := by
  have refused : (submit "T" 2 (.string "B")).run World.handle Sample.replaced =
      (.error (.internal (.kindMismatch 7 .dragDrop .singleChoice)), Sample.replaced) :=
    Prod.ext (by decide +kernel) rfl
  refine ⟨fun always => ?_, fun always => ?_⟩
  · exact always Sample.replaced ⟨0, false⟩ "T" _ _ Sample.revised_replaced Sample.questions_replaced _ (.tail _ (.head _)) _ _ _ refused
  · have alike := always Sample.replaced ⟨0, false⟩ "T" _ _ Sample.revised_replaced Sample.questions_replaced _ (.tail _ (.head _))
    exact absurd alike (by decide)

end Course

end Proctor
