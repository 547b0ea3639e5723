import Proctor.Proofs.Question.Answering
import Proctor.Proofs.Question.Grading
import Proctor.Proofs.Wire.Items

/-!
# Answers sent back

A sheet shows the answer that a slot has. A student may send what is shown as an answer of its own: the question accepts it,
whatever the payload was that it came from. The id of an item that was read from a key is a signed 64-bit number, so its text
is read as this id, and the fields that are written for a placement name different items. Main statement: `Details.accept_shown`.
-/

set_option autoImplicit false

namespace Proctor

namespace Matching

variable {q : Matching} {p p' : Placement} {fields : List (String × Json.Value)} {item slot : Int} {payload : Json.Value}
  {value : AnswerValue}

/-- A key names a signed 64-bit number. -/
theorem holds_of_itemOfKey? {key : String} (named : itemOfKey? key = some item) : Text.Width.signed64.holds item = true := by
  unfold itemOfKey? at named
  cases read : Text.Integer.read .signed64 (Text.trim key.toList) with
  | error fault =>
    rw [read] at named
    cases named
  | ok id =>
    rw [read] at named
    cases named
    exact Text.Integer.holds_of_read (by decide) (by decide) read

/-- What is placed is placed again by the field that is written for it. -/
theorem Fills.places_text (fills : q.Fills fields p) (held : p.get? item = some slot) :
    q.Places (Text.Integer.text item, .int slot) item slot := by
  obtain ⟨field, -, places⟩ := (fills.get?_iff item slot).1 held
  exact { places with named := itemOfKey?_text (holds_of_itemOfKey? places.named), whole := rfl }

/-- The fields that are written for a placement. -/
def shown (p : Placement) : Table String Json.Value := .ofList (p.entries.map fun e => (Text.Integer.text e.1, .int e.2))

theorem Fills.mem_shown_iff (fills : q.Fills fields p) {field : String × Json.Value} :
    field ∈ (shown p).entries ↔ ∃ item slot, p.get? item = some slot ∧ (Text.Integer.text item, .int slot) = field := by
  have fits e (listed : e ∈ p.entries) : Text.Width.signed64.holds e.1 = true :=
    holds_of_itemOfKey? (fills.places_text (Table.get?_eq_some.2 listed)).named
  rw [shown, mem_ofList_text fits p.nodup_keys, Prod.exists]
  simp only [Table.get?_eq_some]

/-- **The fields that are written** for an accepted placement can be placed: each places its entry, and the texts of the items
tell these apart. -/
theorem Fills.placeable_shown (fills : q.Fills fields p) : q.Placeable (shown p).entries := by
  apply placeable_of_text
  intro field written
  obtain ⟨item, slot, held, rfl⟩ := fills.mem_shown_iff.1 written
  exact ⟨item, slot, rfl, fills.places_text held⟩

/-- What is written for an accepted placement fills it again. -/
theorem Fills.of_shown (fills : q.Fills fields p) (fills' : q.Fills (shown p).entries p') : p' = p := by
  apply Table.ext_get?
  intro item
  apply Option.ext
  intro slot
  rw [fills'.get?_iff]
  constructor
  · rintro ⟨field, written, places⟩
    obtain ⟨item', slot', held, rfl⟩ := fills.mem_shown_iff.1 written
    obtain ⟨rfl, rfl⟩ := places.unique (fills.places_text held)
    exact held
  · intro held
    exact ⟨_, fills.mem_shown_iff.2 ⟨item, slot, held, rfl⟩, fills.places_text held⟩

/-- An accepted placement is accepted as it is written. -/
theorem accept_json (accepted : q.accept payload = .ok value) : q.accept value.json = .ok value := by
  obtain ⟨fields, p, -, -, rfl, fills⟩ := exists_of_accept accepted
  obtain ⟨p', again, fills'⟩ := accept_of_placeable fills.placeable_shown
  rw [fills.of_shown fills'] at again
  exact again

end Matching

/-- An accepted option is accepted by its name. -/
theorem SingleChoice.accept_json {q : SingleChoice} {payload : Json.Value} {value : AnswerValue}
    (accepted : q.accept payload = .ok value) : q.accept value.json = .ok value := by
  cases value with
  | option option => simp [AnswerValue.json, Choice.json, accept, Choice.read_name]
  | placement p => cases q.kind_of_accept accepted

theorem AnswerValue.ordered_json (value : AnswerValue) : value.json.Ordered := by
  cases value with
  | option => trivial
  | placement p => exact Json.Value.ordered_ofTable _

namespace Details

variable {d : Details} {payload : Json.Value} {value : AnswerValue}

/-- What a question has accepted it accepts again as it is written. -/
theorem accept_json (accepted : d.accept payload = .ok value) : d.accept value.json = .ok value := by
  cases d with
  | choice q => exact q.accept_json accepted
  | matching q => exact q.accept_json accepted

/-- **What the sheet shows can be sent back**: where an item of a sheet has an answer that the question has accepted, it shows
a value that the question accepts as the same answer, with the same grade. -/
theorem accept_shown (accepted : d.accept payload = .ok value) {item : Exam.SheetItem} (answered : item.answer = some value) :
    ∃ shown, item.json.field? "current_answer" = some shown ∧ shown.Ordered ∧ d.accept shown = .ok value ∧
      (d.accept shown).map d.grades = .ok (d.grades value) := by
  have again := accept_json accepted
  refine ⟨value.json, ?field, value.ordered_json, again, ?grade⟩
  case field =>
    rw [item.field?_current_answer, answered]
    rfl
  case grade =>
    rw [again]
    rfl

namespace Sample

/-- A matching of the least and the greatest id. -/
def extremes : Matching :=
  ⟨[⟨-9223372036854775808, "least"⟩, ⟨9223372036854775807, "greatest"⟩], [⟨-1, "below"⟩, ⟨9223372036854775807, "above"⟩],
    .ofList [(-9223372036854775808, -1), (9223372036854775807, 9223372036854775807)]⟩

/-- The greatest id first, and each with blanks or a sign too many. -/
def spelled : List (String × Json.Value) :=
  [(" +9223372036854775807", .int 9223372036854775807), ("-09223372036854775808", .int (-1))]

/-- The right answer to it, and an item of a sheet that has this answer. -/
def right : AnswerValue := Sample.extremes.solution

def answered : Exam.SheetItem := ⟨1, .dragDrop, ⟨1, "", .matching Sample.extremes.items Sample.extremes.slots⟩, some right⟩

end Sample

theorem accept_shown_of_extremes :
    let d := Details.matching Sample.extremes
    d.accept (.object Sample.spelled) = .ok Sample.right ∧ d.grades Sample.right = true ∧
      ∃ shown, Sample.answered.json.field? "current_answer" = some shown ∧ d.accept shown = .ok Sample.right ∧
        (d.accept shown).map d.grades = .ok true := by
  intro d
  have accepted : d.accept (.object Sample.spelled) = .ok Sample.right := rfl
  have answered : Sample.answered.answer = some Sample.right := rfl
  obtain ⟨shown, field, -, again, grade⟩ := accept_shown accepted answered
  exact ⟨accepted, rfl, shown, field, again, grade⟩

end Details

end Proctor
