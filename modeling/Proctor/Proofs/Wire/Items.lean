import Proctor.Wire.Session

/-!
# Items as they are sent

An item of a sheet or of a review says whether it is answered, and has parts that are `null` unless it is. `Marked` says that
these agree.
-/

set_option autoImplicit false

namespace Proctor

namespace Json.Value

/-- The object has this field, and the field is not `null`. -/
def gives (v : Value) (key : String) : Bool :=
  match v.field? key with
  | none => false
  | some .null => false
  | some _ => true

theorem field?_ofFields (fields : List (String × Value)) (key : String) :
    (ofFields fields).field? key = (Table.ofList fields).get? key := rfl

/-- An optional part that is never `null` when it is there. -/
theorem gives_of_orNull {α : Type} {v : Value} {key : String} {f : α → Value} {a? : Option α} (proper : ∀ a, f a ≠ .null)
    (field : v.field? key = some (orNull f a?)) : v.gives key = a?.isSome := by
  unfold gives
  rw [field]
  cases a? with
  | none => rfl
  | some a =>
    have there := proper a
    simp_all [orNull]

end Json.Value

theorem Instant.json_ne_null (t : Instant) : t.json ≠ .null := by
  rintro ⟨⟩

theorem AnswerValue.json_ne_null (value : AnswerValue) : value.json ≠ .null := by
  cases value <;> rintro ⟨⟩

theorem Shown.json_ne_null (shown : Shown) : shown.json ≠ .null := by
  cases shown <;> rintro ⟨⟩

namespace Exam

/-- The object says in its field `is_answered` whether it is, and has these parts just then. -/
def Marked (answered : Bool) (parts : List String) (v : Json.Value) : Prop :=
  v.field? "is_answered" = some (.bool answered) ∧ ∀ key ∈ parts, v.gives key = answered

namespace SheetItem

theorem field?_current_answer (item : SheetItem) :
    item.json.field? "current_answer" = some (.orNull AnswerValue.json item.answer) := by
  simp [json, Json.Value.field?_ofFields, Table.ofList]

theorem marked_json (item : SheetItem) : Marked item.answer.isSome ["current_answer"] item.json := by
  refine ⟨by simp [json, Json.Value.field?_ofFields, Table.ofList], ?_⟩
  simpa using Json.Value.gives_of_orNull AnswerValue.json_ne_null item.field?_current_answer

end SheetItem

namespace ReviewItem

/-- An answer that is there has to be shown with its labels for that. -/
theorem marked_json {item : ReviewItem} (shown : item.shown.isSome = item.answer.isSome) :
    Marked item.answer.isSome ["student_answer", "answered_at"] item.json := by
  have answer : item.json.field? "student_answer" = some (.orNull Shown.json item.shown) := by
    simp [json, Json.Value.field?_ofFields, Table.ofList]
  have instant : item.json.field? "answered_at" = some (.orNull (fun a : Answer => a.answeredAt.json) item.answer) := by
    simp [json, Json.Value.field?_ofFields, Table.ofList]
  refine ⟨by simp [json, Json.Value.field?_ofFields, Table.ofList], ?_⟩
  have first := (Json.Value.gives_of_orNull Shown.json_ne_null answer).trans shown
  have second := Json.Value.gives_of_orNull (fun a : Answer => a.answeredAt.json_ne_null) instant
  simpa using ⟨first, second⟩

theorem field?_is_correct (item : ReviewItem) : item.json.field? "is_correct" = some (.bool item.isCorrect) := by
  simp [json, Json.Value.field?_ofFields, Table.ofList]

/-- Only what is answered is right. -/
theorem isSome_of_isCorrect {item : ReviewItem} (right : item.isCorrect = true) : item.answer.isSome = true := by
  obtain ⟨a, given, -⟩ := (Option.any_eq_true _ _).1 right
  rw [given]
  rfl

end ReviewItem

end Exam

end Proctor
