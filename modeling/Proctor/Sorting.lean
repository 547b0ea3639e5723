/-!
# Sorting lists

`sortBy le` sorts a list by a Boolean order; entries that are equal in this order stay in the
order that they had. The result is a permutation of the list, and sorted if the order is total
and transitive.
-/

set_option autoImplicit false

namespace Proctor

variable {α : Type}

/-- Puts `a` in front of the first entry that it may stand before. -/
def insertBy (le : α → α → Bool) (a : α) : List α → List α
  | [] => [a]
  | b :: rest => if le a b then a :: b :: rest else b :: insertBy le a rest

def sortBy (le : α → α → Bool) : List α → List α
  | [] => []
  | a :: rest => insertBy le a (sortBy le rest)

theorem insertBy_perm (le : α → α → Bool) (a : α) (l : List α) : (insertBy le a l).Perm (a :: l) := by
  induction l with
  | nil => exact .refl _
  | cons b rest ih =>
    unfold insertBy
    split
    · exact .refl _
    · exact (ih.cons b).trans (.swap a b rest)

theorem sortBy_perm (le : α → α → Bool) (l : List α) : (sortBy le l).Perm l := by
  induction l with
  | nil => exact .refl _
  | cons a rest ih => exact (insertBy_perm le a _).trans (ih.cons a)

@[simp] theorem mem_sortBy {le : α → α → Bool} {l : List α} {a : α} : a ∈ sortBy le l ↔ a ∈ l :=
  (sortBy_perm le l).mem_iff

@[simp] theorem length_sortBy (le : α → α → Bool) (l : List α) : (sortBy le l).length = l.length :=
  (sortBy_perm le l).length_eq

theorem pairwise_insertBy {le : α → α → Bool} (total : ∀ a b, le a b = true ∨ le b a = true)
    (trans : ∀ a b c, le a b = true → le b c = true → le a c = true) (a : α) {l : List α}
    (h : l.Pairwise (le · · = true)) : (insertBy le a l).Pairwise (le · · = true) := by
  induction l with
  | nil => simp [insertBy]
  | cons b rest ih =>
    obtain ⟨below, tail⟩ := List.pairwise_cons.1 h
    unfold insertBy
    split
    · rename_i ab
      refine List.pairwise_cons.2 ⟨fun x hx => ?_, h⟩
      obtain rfl | hx := List.mem_cons.1 hx
      · exact ab
      · exact trans a b x ab (below x hx)
    · rename_i ab
      refine List.pairwise_cons.2 ⟨fun x hx => ?_, ih tail⟩
      obtain rfl | hx := List.mem_cons.1 ((insertBy_perm le a rest).mem_iff.1 hx)
      · exact (total x b).resolve_left ab
      · exact below x hx

theorem pairwise_sortBy {le : α → α → Bool} (total : ∀ a b, le a b = true ∨ le b a = true)
    (trans : ∀ a b c, le a b = true → le b c = true → le a c = true) (l : List α) :
    (sortBy le l).Pairwise (le · · = true) := by
  induction l with
  | nil => exact .nil
  | cons a rest ih => exact pairwise_insertBy total trans a ih

/-- A sorted list stays as it is. -/
theorem sortBy_eq_self {le : α → α → Bool} {l : List α} (h : l.Pairwise (le · · = true)) : sortBy le l = l := by
  induction l with
  | nil => rfl
  | cons a rest ih =>
    obtain ⟨below, tail⟩ := List.pairwise_cons.1 h
    rw [sortBy, ih tail]
    cases rest with
    | nil => rfl
    | cons b rest => simp [insertBy, below b]

end Proctor
