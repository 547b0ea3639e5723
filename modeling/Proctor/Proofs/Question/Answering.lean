import Proctor.Question.Marking

/-!
# Answers and the kinds of questions

What a question accepts as an answer is of its own kind, and this is what can be shown with the labels of the
question.
-/

set_option autoImplicit false

namespace Proctor

/-- The kind of questions that the answer belongs to. -/
def AnswerValue.kind : AnswerValue → Kind
  | .option _ => .singleChoice
  | .placement _ => .dragDrop

variable {payload : Json.Value} {value : AnswerValue}

theorem SingleChoice.kind_of_accept {q : SingleChoice} (accepted : q.accept payload = .ok value) : value.kind = .singleChoice := by
  unfold accept at accepted
  split at accepted
  · split at accepted <;> cases accepted
    rfl
  · cases accepted

theorem Matching.kind_of_accept {q : Matching} (accepted : q.accept payload = .ok value) : value.kind = .dragDrop := by
  unfold accept at accepted
  split at accepted
  · rename_i fields
    cases placed : fields.foldlM q.place ∅ <;> rw [placed] at accepted <;> cases accepted
    rfl
  · cases accepted

namespace Details

/-- An answer that is accepted is of the kind of the question. -/
theorem kind_of_accept {d : Details} (accepted : d.accept payload = .ok value) : value.kind = d.kind := by
  cases d with
  | choice q => exact q.kind_of_accept accepted
  | matching q => exact q.kind_of_accept accepted

/-- What can be shown are the answers of the kind of the question. -/
theorem isSome_present_iff {d : Details} : (d.present value).isSome ↔ value.kind = d.kind := by
  cases d <;> cases value <;> simp [present, SingleChoice.present, Matching.present, kind, AnswerValue.kind]

end Details

theorem Question.detailsFor_eq_ok_iff {q : Question} {kind : Kind} {d : Details} :
    q.detailsFor kind = .ok d ↔ q.kind = kind ∧ q.details = d := by
  unfold detailsFor
  split <;> simp_all

end Proctor
