import Proctor.Proofs.Draw

/-!
# What becomes of a draw

A draw fails if no question is asked for, or more than the pool has different ones, and else gives as many as are asked for. All that
it looks at of the pool is which questions it has and of which kind each is in its first entry, so the order of the entries and how often a
question is repeated make no difference (`draw_outcome`).
-/

set_option autoImplicit false

namespace Proctor.Draw

variable {pool other : List PoolEntry} {count : Nat}

theorem draw_zero (pool : List PoolEntry) (words : List UInt32) : draw pool 0 words = .error (.input .emptyDraw) := rfl

theorem draw_congr (same : distinct other = distinct pool) (count : Nat) (words : List UInt32) :
    draw other count words = draw pool count words := by
  rw [draw, same, draw]

/-- **What becomes of a draw**, whatever the words are. It fails if no question is asked for, or else if the pool has fewer different
questions than are asked for. Otherwise it gives just so many, numbered from 1, each once, and each of the kind that it has in
its first entry in the pool. Another pool with the same questions, of the same kinds in their first entries, gives the same. -/
theorem draw_outcome (pool : List PoolEntry) (count : Nat) (words : List UInt32) :
    (match draw pool count words with
      | .error e => count = 0 ∧ e = .input .emptyDraw ∨
          0 < count ∧ available pool < count ∧ e = .insufficientPool count (available pool)
      | .ok (drawn, _) => 0 < count ∧ count ≤ available pool ∧ drawn.length = count ∧ Proper drawn ∧
          ∀ d ∈ drawn, firstKind? pool d.question = some d.kind) ∧
      ∀ other, (∀ id, firstKind? other id = firstKind? pool id) → draw other count words = draw pool count words := by
  refine ⟨?_, fun other same => draw_congr (distinct_congr same) count words⟩
  rcases Nat.eq_zero_or_pos count with rfl | positive
  · rw [draw_zero]
    exact .inl ⟨rfl, rfl⟩
  rcases Nat.lt_or_ge (available pool) count with few | enough
  · rw [draw_of_few positive (by rwa [length_distinct]), length_distinct]
    exact .inr ⟨positive, few, rfl⟩
  · obtain ⟨⟨drawn, used⟩, drew⟩ := exists_draw_eq_ok positive (by rwa [length_distinct]) words
    obtain ⟨-, length, proper⟩ := draw_eq_ok drew
    rw [drew]
    exact ⟨positive, enough, length, proper, fun d listed => firstKind?_of_draw_eq_ok drew listed⟩

/-- Of a pool in which a question is repeated with another kind, both questions are drawn, in the order that the words say after one of them was
passed over; without the repetition and in another order the pool gives the same. -/
theorem draw_outcome_of_repeated :
    let pool : List PoolEntry := [⟨3, .dragDrop⟩, ⟨1, .singleChoice⟩, ⟨3, .singleChoice⟩]
    let other : List PoolEntry := [⟨1, .singleChoice⟩, ⟨3, .dragDrop⟩]
    let drawn : List Drawn := [⟨1, 1, .singleChoice⟩, ⟨2, 3, .dragDrop⟩]
    draw pool 2 [0x40000000, 0x80000000] = .ok (drawn, 3) ∧ available pool = 2 ∧ Proper drawn ∧
      (∀ d ∈ drawn, firstKind? pool d.question = some d.kind) ∧
      (∀ id, firstKind? other id = firstKind? pool id) ∧ draw other 2 [0x40000000, 0x80000000] = .ok (drawn, 3) := by
  intro pool other drawn
  have drew : draw pool 2 [0x40000000, 0x80000000] = .ok (drawn, 3) := by decide
  have same : ∀ id, firstKind? other id = firstKind? pool id := by
    intro id
    simp only [firstKind?, other, pool, List.find?_cons, List.find?_nil]
    by_cases one : (1 : Int) == id
    · obtain rfl := beq_iff_eq.1 one
      decide
    · by_cases three : (3 : Int) == id <;> simp [one, three]
  obtain ⟨outcome, congruent⟩ := draw_outcome pool 2 [0x40000000, 0x80000000]
  rw [drew] at outcome
  obtain ⟨-, -, -, proper, kinds⟩ := outcome
  exact ⟨drew, by decide, proper, kinds, same, (congruent other same).trans drew⟩

end Proctor.Draw
