import Proctor.Proofs.Text.Order
import Proctor.Wire.Request

/-!
# The order of the fields of an object

The fields of an object are listed in the order of the bytes of their keys, and no key is listed twice. So it is with every
value that is read, in particular with an answer that is handed in (`Wire.ordered_of_submission`).
-/

set_option autoImplicit false

namespace Proctor

open Json

namespace Json

namespace Value

/-- If the value is an object, its fields are listed by the bytes of their keys, each key once. -/
def Ordered : Value → Prop
  | .object fields => fields.Pairwise fun a b => Text.utf8 a.1 < Text.utf8 b.1
  | _ => True

theorem ordered_ofTable (fields : Table String Value) : (ofTable fields).Ordered :=
  fields.sorted.imp Text.compare_eq_lt_iff.1

/-- The fields before one that is listed are those whose keys have smaller bytes. -/
theorem mem_before_iff {fields before after : List (String × Value)} {field other : String × Value}
    (ordered : (Value.object fields).Ordered) (split : fields = before ++ field :: after) :
    other ∈ before ↔ other ∈ fields ∧ Text.utf8 other.1 < Text.utf8 field.1 := by
  subst split
  obtain ⟨-, rest, apart⟩ := List.pairwise_append.1 ordered
  refine ⟨fun listed => ⟨List.mem_append_left _ listed, apart other listed field List.mem_cons_self⟩, ?_⟩
  rintro ⟨listed, smaller⟩
  obtain listed | listed := List.mem_append.1 listed
  · exact listed
  obtain rfl | listed := List.mem_cons.1 listed
  · exact absurd smaller (List.lt_irrefl _)
  · exact absurd smaller (List.lt_asymm ((List.pairwise_cons.1 rest).1 other listed))

theorem int64?_eq_some_iff {v : Value} {n : Int} : v.int64? = some n ↔ v = .int n ∧ Text.Width.signed64.holds n = true := by
  unfold int64?
  split
  · simp only [int, number.injEq, Number.whole.injEq, Option.ite_none_right_eq_some, Option.some.injEq]
    exact ⟨fun ⟨fits, eq⟩ => ⟨eq, eq ▸ fits⟩, fun ⟨eq, fits⟩ => ⟨eq ▸ fits, eq⟩⟩
  · rename_i other
    exact ⟨nofun, fun ⟨eq, _⟩ => absurd eq (other n)⟩

end Value

/-- What is read between brackets is made of its parts, and the brackets are closed and not too deep. -/
theorem exists_of_enclosed {α : Type} {shallow : Prop} [Decidable shallow] {closed : Bool} {parts : Except Fault α}
    {f : α → Value} {v : Value}
    (eq : (if shallow then parts >>= fun a => if closed then .ok (f a) else .error .malformed else .error .malformed) = .ok v) :
    shallow ∧ closed = true ∧ ∃ a, parts = .ok a ∧ v = f a := by
  split at eq
  · rename_i shallow
    obtain ⟨a, parts, eq⟩ := exists_of_bind_eq_ok eq
    split at eq <;> cases eq
    rename_i closed
    exact ⟨shallow, closed, a, parts, rfl⟩
  · cases eq

namespace Draft

variable {d : Draft} {depth : Nat} {v : Value}

theorem ordered_of_toValue (eq : d.toValue depth = .ok v) : v.Ordered := by
  cases d
  case number n =>
    rw [toValue] at eq
    split at eq <;> cases eq
    trivial
  case string text =>
    cases text <;> cases eq
    trivial
  case array items closed =>
    rw [toValue] at eq
    obtain ⟨-, -, vs, -, rfl⟩ := exists_of_enclosed eq
    trivial
  case object fields closed =>
    rw [toValue] at eq
    obtain ⟨-, -, vs, -, rfl⟩ := exists_of_enclosed eq
    exact Value.ordered_ofTable _
  all_goals
    cases eq <;> trivial

theorem ordered_of_innerValue {inner : String → Option Value} (proper : ∀ text v, inner text = some v → v.Ordered)
    (eq : d.innerValue inner = .ok v) : v.Ordered := by
  unfold innerValue at eq
  split at eq
  · rename_i text
    cases read : inner text <;> rw [read] at eq <;> cases eq
    exact proper text v read
  · cases eq

theorem ordered_of_resolve {inner : String → Option Value} (proper : ∀ text v, inner text = some v → v.Ordered)
    (eq : d.resolve inner depth = .ok v) : v.Ordered := by
  cases d
  case array items closed =>
    rw [resolve] at eq
    obtain ⟨-, -, vs, -, rfl⟩ := exists_of_enclosed eq
    trivial
  case object fields closed =>
    rw [resolve] at eq
    split at eq
    · split at eq
      · obtain ⟨value, read, eq⟩ := exists_of_bind_eq_ok eq
        split at eq <;> cases eq
        exact ordered_of_innerValue proper read
      · obtain ⟨vs, -, eq⟩ := exists_of_bind_eq_ok eq
        split at eq <;> cases eq
        exact Value.ordered_ofTable _
    · cases eq
  all_goals exact ordered_of_toValue eq

end Draft

/-- Texts in texts are read in the same way, so the induction is on how deep they lie. -/
theorem ordered_of_parseWithin {fuel : Nat} {text : String} {v : Value} (eq : parseWithin fuel text = some v) : v.Ordered := by
  induction fuel generalizing text v with
  | zero => cases eq
  | succ fuel ih =>
    unfold parseWithin read readSymbols at eq
    cases read : (Draft.read (Text.symbols text)).1.resolve (parseWithin fuel) 0 with
    | error f => simp [read, bind, Except.bind, Except.toOption] at eq
    | ok a =>
      simp only [read, bind, Except.bind] at eq
      split at eq <;> cases eq
      exact Draft.ordered_of_resolve (fun _ _ => ih) read

theorem Reader.ordered_of_any {depth : Nat} {d : Draft} {v : Value} (eq : Reader.any depth d = .ok v) : v.Ordered :=
  Draft.ordered_of_resolve (fun _ _ => ordered_of_parseWithin) eq

end Json

/-- The answer that is handed in is listed in order, whatever the text of the submission. -/
theorem Wire.ordered_of_submission {depth : Nat} {d : Draft} {payload : Value} (eq : submission depth d = .ok payload) :
    payload.Ordered := by
  obtain ⟨r, -, eq⟩ := exists_of_bind_eq_ok eq
  unfold Record.get at eq
  split at eq
  · exact Reader.ordered_of_any eq
  · cases eq

end Proctor
