import Mathlib.Data.List.Destutter
import Mathlib.Data.List.Nodup
import Proctor.Sorting

/-!
# Sorting and other changes of a list

Sorting may be exchanged with a change of the entries that the order does not look at, and with leaving entries out.
A list that is sorted by a number and then kept to the first of each run holds, for each number, the first entry that
there was (`find?_sortBy`, `find?_eraseRepsBy`), and the numbers are ascending (`pairwise_eraseRepsBy`). So what is left can be found by its
numbers (`find?_key_eq_some_iff`).
-/

set_option autoImplicit false

namespace Proctor

variable {α : Type} {le : α → α → Bool}

section Map

variable {f : α → α}

theorem map_insertBy (same : ∀ a b, le (f a) (f b) = le a b) (a : α) (l : List α) :
    (insertBy le a l).map f = insertBy le (f a) (l.map f) := by
  induction l with
  | nil => rfl
  | cons b l ih =>
    simp only [insertBy, List.map_cons, same]
    split
    · rfl
    · rw [List.map_cons, ih]

/-- Sorting does not change what the order does not look at. -/
theorem map_sortBy (same : ∀ a b, le (f a) (f b) = le a b) (l : List α) : (sortBy le l).map f = sortBy le (l.map f) := by
  induction l with
  | nil => rfl
  | cons a l ih => rw [sortBy, map_insertBy same, ih, List.map_cons, sortBy]

end Map

section Filter

variable {p : α → Bool}

theorem insertBy_of_forall {a : α} {l : List α} (first : ∀ b ∈ l, le a b = true) : insertBy le a l = a :: l := by
  cases l with
  | nil => rfl
  | cons b l => rw [insertBy, if_pos (first b List.mem_cons_self)]

theorem filter_insertBy (trans : ∀ a b c, le a b = true → le b c = true → le a c = true) (a : α) {l : List α}
    (sorted : l.Pairwise (le · · = true)) :
    (insertBy le a l).filter p = if p a then insertBy le a (l.filter p) else l.filter p := by
  induction l with
  | nil => simp [insertBy, List.filter_cons]
  | cons b l ih =>
    obtain ⟨below, tail⟩ := List.pairwise_cons.1 sorted
    by_cases ab : le a b = true
    · have first : ∀ c ∈ (b :: l).filter p, le a c = true := by
        intro c listed
        obtain rfl | listed := List.mem_cons.1 (List.mem_filter.1 listed).1
        · exact ab
        · exact trans a b c ab (below c listed)
      rw [insertBy_of_forall first, insertBy, if_pos ab, List.filter_cons]
    · rw [insertBy, if_neg ab, List.filter_cons, List.filter_cons, ih tail]
      split
      · split
        · rw [insertBy, if_neg ab]
        · rfl
      · rfl

/-- Sorting does not change what is left out. -/
theorem filter_sortBy (total : ∀ a b, le a b = true ∨ le b a = true)
    (trans : ∀ a b c, le a b = true → le b c = true → le a c = true) (l : List α) :
    (sortBy le l).filter p = sortBy le (l.filter p) := by
  induction l with
  | nil => rfl
  | cons a l ih =>
    rw [sortBy, filter_insertBy trans a (pairwise_sortBy total trans l), ih, List.filter_cons]
    split <;> rfl

end Filter

/-- An entry is found by its key if no other one has this key. -/
theorem find?_key_eq_some_iff {κ : Type} [BEq κ] [LawfulBEq κ] {key : α → κ} {l : List α} (once : (l.map key).Nodup) {k : κ} {a : α} :
    l.find? (key · == k) = some a ↔ a ∈ l ∧ key a = k := by
  constructor
  · intro found
    exact ⟨List.mem_of_find?_eq_some found, by simpa using List.find?_some found⟩
  · rintro ⟨listed, rfl⟩
    cases found : l.find? (key · == key a) with
    | none => simpa using List.find?_eq_none.1 found a listed
    | some b =>
      have same : key b = key a := by simpa using List.find?_some found
      rw [List.inj_on_of_nodup_map once (List.mem_of_find?_eq_some found) listed same]

section Key

variable {key : α → Int} {l : List α}

theorem key_le_total (a b : α) : decide (key a ≤ key b) = true ∨ decide (key b ≤ key a) = true := by
  simp only [decide_eq_true_eq]
  omega

theorem key_le_trans (a b c : α) (ab : decide (key a ≤ key b) = true) (bc : decide (key b ≤ key c) = true) :
    decide (key a ≤ key c) = true := by
  simp only [decide_eq_true_eq] at ab bc ⊢
  omega

/-- Sorting by a number makes it ascend. -/
theorem pairwise_key_sortBy (key : α → Int) (l : List α) : (sortBy (fun a b => decide (key a ≤ key b)) l).Pairwise (key · ≤ key ·) :=
  (pairwise_sortBy key_le_total key_le_trans l).imp of_decide_eq_true

/-- Sorting by a number is stable: the first entry with a number stays the first one. -/
theorem find?_sortBy (key : α → Int) (l : List α) (n : Int) :
    (sortBy (fun a b => decide (key a ≤ key b)) l).find? (key · == n) = l.find? (key · == n) := by
  have alike : (l.filter (key · == n)).Pairwise fun a b => decide (key a ≤ key b) = true := by
    apply List.pairwise_of_forall_mem_list
    intro a ha b hb
    have ka : key a = n := by simpa using (List.mem_filter.1 ha).2
    have kb : key b = n := by simpa using (List.mem_filter.1 hb).2
    rw [ka, kb]
    exact decide_eq_true (Int.le_refl n)
  rw [← List.head?_filter, ← List.head?_filter, filter_sortBy key_le_total key_le_trans, sortBy_eq_self alike]

theorem eraseRepsBy_eq_destutter (r : α → α → Bool) (l : List α) : l.eraseRepsBy r = l.destutter (r · · = false) := by
  have loop (l : List α) (a : α) (done : List α) :
      List.eraseRepsBy.loop r a l done = done.reverse ++ l.destutter' (r · · = false) a := by
    induction l generalizing a done with
    | nil => simp [List.eraseRepsBy.loop]
    | cons b l ih =>
      cases same : r a b with
      | true =>
        rw [List.destutter'_cons, if_neg (by simp [same]), ← ih]
        simp only [List.eraseRepsBy.loop, same]
      | false =>
        have step : List.eraseRepsBy.loop r a (b :: l) done = List.eraseRepsBy.loop r b l (a :: done) := by
          simp only [List.eraseRepsBy.loop, same]
        rw [step, ih, List.destutter'_cons, if_pos same, List.reverse_cons, List.append_assoc, List.singleton_append]
  cases l with
  | nil => rfl
  | cons a l => exact loop l a []

/-- The first of a run is kept, so the first entry with a number is. -/
theorem find?_eraseRepsBy (key : α → Int) (l : List α) (n : Int) :
    (l.eraseRepsBy fun a b => key a == key b).find? (key · == n) = l.find? (key · == n) := by
  have kept (l : List α) (a : α) :
      (l.destutter' (fun a b => (key a == key b) = false) a).find? (key · == n) = (a :: l).find? (key · == n) := by
    induction l generalizing a with
    | nil => rfl
    | cons b l ih =>
      by_cases same : key a = key b
      · rw [List.destutter'_cons, if_neg (by simp [same]), ih]
        simp only [List.find?_cons, same]
        split <;> rfl
      · rw [List.destutter'_cons, if_pos (by simp [same]), List.find?_cons, ih]
        conv_rhs => rw [List.find?_cons]
  rw [eraseRepsBy_eq_destutter]
  cases l with
  | nil => rfl
  | cons a l => exact kept l a

/-- Of a list that is sorted by a number, each number is kept once. -/
theorem pairwise_eraseRepsBy (sorted : l.Pairwise (key · ≤ key ·)) :
    (l.eraseRepsBy fun a b => key a == key b).Pairwise (key · < key ·) := by
  rw [eraseRepsBy_eq_destutter]
  have ascending := sorted.sublist (l.destutter_sublist fun a b => (key a == key b) = false)
  have apart := l.isChain_destutter fun a b => (key a == key b) = false
  have : Trans (key · < key · : α → α → Prop) (key · < key ·) (key · < key ·) := ⟨Int.lt_trans⟩
  apply List.IsChain.pairwise
  rw [List.isChain_iff_getElem] at apart ⊢
  intro i inside
  have le := List.pairwise_iff_getElem.1 ascending i (i + 1) (by omega) inside (by omega)
  have ne := apart i inside
  rw [beq_eq_false_iff_ne] at ne
  omega

end Key

end Proctor
