import Proctor.Catalog
import Proctor.Question.Marking
import Mathlib.Data.Option.Basic

/-!
# Questions with other keys

`Question.face` is what a question is apart from its key. Questions with one face read and show answers
alike (`Details.accept_congr`, `Details.present_congr`); only grades differ. Catalogs whose questions have
the same faces offer the same questions to draw (`Catalog.Alike.pool_eq`).
-/

set_option autoImplicit false

namespace Proctor

section Images

variable {α γ κ ν : Type} {f : α → γ}

theorem rel_of_map_eq {a? b? : Option α} (h : a?.map f = b?.map f) : Option.Rel (fun a b => f a = f b) a? b? := by
  cases a? with
  | none =>
    cases b? with
    | none => exact .none
    | some b => cases h
  | some a =>
    cases b? with
    | none => cases h
    | some b => exact .some (Option.some.inj h)

/-- Tables whose look-ups have the same images list the same images. -/
theorem Table.map_values_congr [Ord κ] [Std.TransOrd κ] [Std.LawfulEqOrd κ] {f : ν → γ} {t u : Table κ ν}
    (h : ∀ k, (t.get? k).map f = (u.get? k).map f) : t.values.map f = u.values.map f := by
  have listed : t.entries.map (fun e => (e.1, f e.2)) = u.entries.map fun e => (e.1, f e.2) := by
    refine eq_of_mem_iff (List.pairwise_map.2 t.sorted) (List.pairwise_map.2 u.sorted) ?_
    have member : ∀ (t : Table κ ν) k c, (k, c) ∈ t.entries.map (fun e => (e.1, f e.2)) ↔ (t.get? k).map f = some c := by
      intro t k c
      simp only [List.mem_map, Prod.exists, Prod.mk.injEq, Option.map_eq_some_iff, get?_eq_some]
      constructor
      · rintro ⟨k, v, listed, rfl, image⟩
        exact ⟨v, listed, image⟩
      · rintro ⟨v, listed, image⟩
        exact ⟨k, v, listed, rfl, image⟩
    rintro ⟨k, c⟩
    rw [member, member, h]
  have images := congrArg (List.map Prod.snd) listed
  simpa only [values, List.map_map, Function.comp_def] using images

end Images

namespace Details

variable {d e : Details}

/-- Which answers are accepted does not depend on the key. -/
theorem accept_congr (h : d.withoutKey = e.withoutKey) : d.accept = e.accept := by
  rcases d with ⟨⟨options, correct⟩⟩ | ⟨⟨items, slots, key⟩⟩ <;> rcases e with ⟨⟨options', correct'⟩⟩ | ⟨⟨items', slots', key'⟩⟩ <;>
    cases h <;> rfl

/-- How answers are shown does not depend on the key. -/
theorem present_congr (h : d.withoutKey = e.withoutKey) : d.present = e.present := by
  rcases d with ⟨⟨options, correct⟩⟩ | ⟨⟨items, slots, key⟩⟩ <;> rcases e with ⟨⟨options', correct'⟩⟩ | ⟨⟨items', slots', key'⟩⟩ <;>
    cases h <;> rfl

end Details

namespace Question

/-- The question apart from its key. -/
def face (q : Question) : Scope × Content := (q.scope, q.content)

variable {q r : Question}

theorem content_eq_of_face (h : q.face = r.face) : q.content = r.content := congrArg Prod.snd h

theorem id_eq_of_face (h : q.face = r.face) : q.id = r.id := congrArg (·.2.question) h

theorem details_eq_of_face (h : q.face = r.face) : q.details.withoutKey = r.details.withoutKey := congrArg (·.2.details) h

theorem kind_eq_of_face (h : q.face = r.face) : q.kind = r.kind := by
  rw [kind, ← Details.kind_withoutKey, details_eq_of_face h, Details.kind_withoutKey, kind]

end Question

namespace Catalog

/-- The catalogs have the same levels, and the same questions apart from their keys. -/
structure Alike (c d : Catalog) : Prop where
  hasLevel : ∀ subject level, c.hasLevel subject level = d.hasLevel subject level
  question : ∀ id, (c.get? id).map Question.face = (d.get? id).map Question.face

namespace Alike

variable {c d : Catalog}

theorem insert (h : c.Alike d) {q r : Question} (same : q.face = r.face) : (c.insert q).Alike (d.insert r) where
  hasLevel := by
    intro subject level
    have levels := h.hasLevel subject level
    have scope : q.scope = r.scope := congrArg Prod.fst same
    simp only [Catalog.hasLevel, List.contains_eq_mem, decide_eq_decide] at levels ⊢
    simp only [Catalog.insert, List.mem_insert_iff, scope, levels]
  question := by
    intro id
    simp only [Catalog.get?_insert, Question.id_eq_of_face same]
    split
    · exact congrArg some same
    · exact h.question id

/-- Catalogs are alike that are filled with questions which differ in their keys only. -/
theorem foldl_insert (h : c.Alike d) {qs rs : List Question} (same : qs.map Question.face = rs.map Question.face) :
    (qs.foldl Catalog.insert c).Alike (rs.foldl Catalog.insert d) := by
  induction qs generalizing c d rs with
  | nil =>
    obtain rfl := List.map_eq_nil_iff.1 same.symm
    exact h
  | cons q qs ih =>
    obtain ⟨r, rs, rfl, face, rest⟩ := List.map_eq_cons_iff.1 same.symm
    exact ih (h.insert face.symm) rest.symm

/-- The same questions may be drawn. -/
theorem pool_eq (h : c.Alike d) (s : Scope) : c.pool s = d.pool s := by
  let eligible : Scope × Content → Bool := fun q =>
    q.1.subject == s.subject && q.1.level == s.level && (s.topic.isNone || q.1.topic == s.topic)
  have listed : ∀ c : Catalog, c.pool s =
      ((c.questions.values.map Question.face).filter eligible).map fun q => ⟨q.2.question, q.2.details.kind⟩ := by
    intro c
    rw [List.filter_map, List.map_map]
    refine List.map_congr_left fun q _ => ?_
    simp only [Function.comp_apply, Question.face, Question.content, Details.kind_withoutKey, Question.kind]
  rw [listed, listed, Table.map_values_congr h.question]

theorem map_getAll (h : c.Alike d) (ids : List Int) : (c.getAll ids).map Question.face = (d.getAll ids).map Question.face := by
  simp only [getAll, List.map_filterMap, h.question]

end Alike

theorem alike_ofList {qs rs : List Question} (same : qs.map Question.face = rs.map Question.face) : (ofList qs).Alike (ofList rs) :=
  Alike.foldl_insert ⟨fun _ _ => rfl, fun _ => rfl⟩ same

end Catalog

end Proctor
