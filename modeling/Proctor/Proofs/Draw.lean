import Proctor.Draw
import Proctor.Proofs.Sorting
import Mathlib.Data.List.Dedup
import Mathlib.Data.List.Perm.Basic

/-!
# What a draw gives

Each entry that `select` takes leaves the rest of the pool together (`refill_perm`), so the entries
taken and the entries left are the pool in another order (`select_perm`). Sorted and without
repeats, the pool holds the first entry of every question and nothing else (`mem_distinct_iff`), so
`draw` gives distinct questions, numbered from 1 (`draw_eq_ok`), each in the kind of its first entry
(`firstKind?_of_draw_eq_ok`).
-/

set_option autoImplicit false

namespace Proctor.Draw

/-- Questions that may become the slots of a session: numbered from 1, and each once. -/
structure Proper (drawn : List Drawn) : Prop where
  numbered : drawn.map (·.sequence) = (List.range drawn.length).map fun i : Nat => (i : Int) + 1
  distinct : (drawn.map (·.question)).Nodup

/-- Indices that can be taken one after the other out of a list of `m` entries. -/
def InRange : List Nat → Nat → Prop
  | [], _ => True
  | j :: js, m => j < m ∧ InRange js (m - 1)

theorem index_lt {m : Nat} (hm : 0 < m) (words : List UInt32) : (index m words).1 < m := by
  induction words with
  | nil => exact hm
  | cons v words ih =>
    have hv : v.toNat < 0x100000000 := v.toNat_lt
    unfold index
    dsimp only
    split
    · exact Nat.div_lt_of_lt_mul (Nat.mul_lt_mul_of_pos_right hv hm)
    · exact ih

theorem length_indices (count m : Nat) (words : List UInt32) : (indices count m words).1.length = count := by
  induction count generalizing m words with
  | zero => rfl
  | succ count ih => simp [indices, ih]

theorem inRange_indices {count m : Nat} (h : count ≤ m) (words : List UInt32) : InRange (indices count m words).1 m := by
  induction count generalizing m words with
  | zero => exact trivial
  | succ count ih => exact ⟨index_lt (by omega) words, ih (by omega) _⟩

section Select

variable {α : Type}

/-- The entry at `j` and what `refill` leaves are the list in another order. -/
theorem refill_perm {l : List α} {j : Nat} (h : j < l.length) : (l[j] :: refill l j).Perm l := by
  obtain ⟨front, z, rfl⟩ := (List.eq_nil_or_concat' l).resolve_left fun e => by simp [e] at h
  have hz : (front ++ [z]).getLast? = some z := List.getLast?_concat
  simp only [refill, hz]
  by_cases inside : j < front.length
  · -- the last entry stands in for the one at `j`
    rw [List.getElem_append_left inside, List.set_append_left _ _ inside, List.dropLast_concat]
    have swapped := (List.set_perm_cons_eraseIdx inside z).cons front[j]
    have whole := (List.getElem_cons_eraseIdx_perm inside).cons z
    exact (swapped.trans (.swap z _ _)).trans (whole.trans (List.perm_append_singleton z front).symm)
  · -- the last entry itself is taken
    have last : j = front.length := by simp at h; omega
    subst last
    simpa using (List.perm_append_singleton z front).symm

theorem length_refill {l : List α} {j : Nat} (h : j < l.length) : (refill l j).length = l.length - 1 := by
  have := (refill_perm h).length_eq
  simp at this
  omega

/-- The entries taken and some rest are the list in another order, and as many are taken as there are indices. -/
theorem select_perm {js : List Nat} {l : List α} (taken : List α) (h : InRange js l.length) :
    ∃ rest, (select js l taken ++ rest).Perm (taken ++ l) ∧ (select js l taken).length = taken.length + js.length := by
  induction js generalizing l taken with
  | nil => exact ⟨l, .refl _, by simp [select]⟩
  | cons j js ih =>
    obtain ⟨hj, hjs⟩ := h
    rw [← length_refill hj] at hjs
    obtain ⟨rest, perm, length⟩ := ih (l[j] :: taken) hjs
    have unfolded : select (j :: js) l taken = select js (refill l j) (l[j] :: taken) := by
      simp only [select, List.getElem?_eq_getElem hj]
    refine ⟨rest, ?_, ?_⟩
    · rw [unfolded]
      have moved : (l[j] :: taken ++ refill l j).Perm (taken ++ (l[j] :: refill l j)) := List.perm_middle.symm
      exact (perm.trans moved).trans ((refill_perm hj).append_left taken)
    · rw [unfolded, length]
      simp
      omega

end Select

theorem map_sequence_number (entries : List PoolEntry) :
    (number entries).map (·.sequence) = (List.range entries.length).map fun i : Nat => (i : Int) + 1 := by
  apply List.ext_getElem
  · simp [number]
  · intro i hi hi'
    simp [number]

theorem map_question_number (entries : List PoolEntry) :
    (number entries).map (·.question) = entries.map (·.question) := by
  apply List.ext_getElem
  · simp [number]
  · intro i hi hi'
    simp [number]

theorem length_number (entries : List PoolEntry) : (number entries).length = entries.length := by
  simp [number]

/-- The kind of the first entry of the pool with this question. -/
def firstKind? (pool : List PoolEntry) (id : Int) : Option Kind := (pool.find? (·.question == id)).map (·.kind)

/-- The number of different questions of a pool. -/
def available (pool : List PoolEntry) : Nat := (pool.map (·.question)).dedup.length

theorem ascending_distinct (pool : List PoolEntry) : (distinct pool).Pairwise (·.question < ·.question) :=
  pairwise_eraseRepsBy (pairwise_key_sortBy PoolEntry.question pool)

/-- The pool holds every question once. -/
theorem nodup_distinct (pool : List PoolEntry) : ((distinct pool).map (·.question)).Nodup :=
  List.pairwise_map.2 ((ascending_distinct pool).imp Int.ne_of_lt)

/-- Of several entries of one question the first counts. -/
theorem find?_distinct (pool : List PoolEntry) (id : Int) :
    (distinct pool).find? (·.question == id) = pool.find? (·.question == id) :=
  (find?_eraseRepsBy PoolEntry.question (sorted pool) id).trans (find?_sortBy PoolEntry.question pool id)

theorem firstKind?_distinct (pool : List PoolEntry) (id : Int) : firstKind? (distinct pool) id = firstKind? pool id := by
  rw [firstKind?, find?_distinct, firstKind?]

/-- What is kept of a pool is the first entry of each question. -/
theorem mem_distinct_iff {pool : List PoolEntry} {e : PoolEntry} :
    e ∈ distinct pool ↔ firstKind? pool e.question = some e.kind := by
  rw [← firstKind?_distinct, firstKind?, Option.map_eq_some_iff]
  simp only [find?_key_eq_some_iff (nodup_distinct pool)]
  constructor
  · intro kept
    exact ⟨e, ⟨kept, rfl⟩, rfl⟩
  · rintro ⟨e', ⟨kept, question⟩, kind⟩
    obtain ⟨id, k⟩ := e
    obtain rfl : e'.question = id := question
    obtain rfl : e'.kind = k := kind
    exact kept

theorem mem_of_firstKind? {pool : List PoolEntry} {e : PoolEntry} (first : firstKind? pool e.question = some e.kind) : e ∈ pool := by
  have kept := mem_distinct_iff.2 first
  have listed : e ∈ sorted pool := by
    rw [distinct, eraseRepsBy_eq_destutter] at kept
    exact (List.destutter_sublist _ _).subset kept
  exact mem_sortBy.1 listed

theorem isSome_firstKind? {pool : List PoolEntry} {id : Int} : (firstKind? pool id).isSome ↔ id ∈ pool.map (·.question) := by
  simp [firstKind?]

/-- The questions are those of the pool. -/
theorem mem_questions_distinct {pool : List PoolEntry} {id : Int} :
    id ∈ (distinct pool).map (·.question) ↔ id ∈ pool.map (·.question) := by
  rw [← isSome_firstKind?, firstKind?_distinct, isSome_firstKind?]

/-- **The pool as it is sorted and kept to first entries** depends on which questions there are and on the kinds of their first entries. -/
theorem distinct_congr {pool other : List PoolEntry} (same : ∀ id, firstKind? other id = firstKind? pool id) :
    distinct other = distinct pool := by
  have perm : (distinct other).Perm (distinct pool) :=
    (List.perm_ext_iff_of_nodup (nodup_distinct other).of_map (nodup_distinct pool).of_map).2 fun e => by
      rw [mem_distinct_iff, mem_distinct_iff, same]
  refine perm.eq_of_pairwise (fun a b _ _ ab ba => ?_) (ascending_distinct other) (ascending_distinct pool)
  omega

theorem length_distinct (pool : List PoolEntry) : (distinct pool).length = available pool := by
  have same : ((distinct pool).map (·.question)).Perm (pool.map (·.question)).dedup :=
    (List.perm_ext_iff_of_nodup (nodup_distinct pool) (List.nodup_dedup _)).2 fun id => mem_questions_distinct.trans List.mem_dedup.symm
  simpa [available] using same.length_eq

/-- A pool that holds every question once is as large as it seems. -/
theorem available_of_nodup {pool : List PoolEntry} (once : (pool.map (·.question)).Nodup) : available pool = pool.length := by
  rw [available, once.dedup, List.length_map]

section Outcome

variable {pool : List PoolEntry} {count : Nat}

/-- The entries that a draw takes, when the pool has enough of them. -/
def taken (pool : List PoolEntry) (count : Nat) (words : List UInt32) : List PoolEntry :=
  select (indices count (distinct pool).length words).1 (distinct pool) []

theorem draw_of_enough (positive : 1 ≤ count) (enough : count ≤ (distinct pool).length) (words : List UInt32) :
    draw pool count words = .ok (number (taken pool count words), (indices count (distinct pool).length words).2) := by
  unfold draw
  rw [if_neg (by omega), if_neg (by omega)]
  rfl

theorem draw_of_few (positive : 1 ≤ count) (few : (distinct pool).length < count) (words : List UInt32) :
    draw pool count words = .error (.insufficientPool count (distinct pool).length) := by
  unfold draw
  rw [if_neg (by omega), if_pos few]

theorem exists_draw_eq_ok (positive : 1 ≤ count) (enough : count ≤ (distinct pool).length) (words : List UInt32) :
    ∃ outcome, draw pool count words = .ok outcome :=
  ⟨_, draw_of_enough positive enough words⟩

/-- A draw succeeds only if the pool has enough. -/
theorem eq_taken_of_draw_eq_ok {words : List UInt32} {drawn : List Drawn} {used : Nat}
    (h : draw pool count words = .ok (drawn, used)) :
    1 ≤ count ∧ count ≤ (distinct pool).length ∧ drawn = number (taken pool count words) := by
  rcases Nat.eq_zero_or_pos count with rfl | positive
  · cases h
  rcases Nat.lt_or_ge (distinct pool).length count with few | enough
  · rw [draw_of_few positive few] at h
    cases h
  · rw [draw_of_enough positive enough] at h
    cases h
    exact ⟨positive, enough, rfl⟩

/-- The entries taken and some rest are the pool in another order. -/
theorem taken_perm (enough : count ≤ (distinct pool).length) (words : List UInt32) :
    ∃ rest, (taken pool count words ++ rest).Perm (distinct pool) ∧ (taken pool count words).length = count := by
  obtain ⟨rest, perm, length⟩ := select_perm [] (inRange_indices enough words)
  rw [length_indices] at length
  exact ⟨rest, perm, length.trans (Nat.zero_add count)⟩

/-- What is drawn has the kind of its first entry. -/
theorem firstKind?_of_draw_eq_ok {words : List UInt32} {drawn : List Drawn} {used : Nat}
    (h : draw pool count words = .ok (drawn, used)) {d : Drawn} (listed : d ∈ drawn) : firstKind? pool d.question = some d.kind := by
  obtain ⟨-, enough, rfl⟩ := eq_taken_of_draw_eq_ok h
  obtain ⟨rest, perm, -⟩ := taken_perm enough words
  simp only [number, List.mem_map, Prod.exists, List.mem_zipIdx_iff_getElem?] at listed
  obtain ⟨e, i, at_i, rfl⟩ := listed
  have known : e ∈ distinct pool := perm.mem_iff.1 (List.mem_append_left rest (List.mem_of_getElem? at_i))
  exact mem_distinct_iff.1 known

/-- What is drawn is an entry of the pool. -/
theorem mem_of_draw_eq_ok {words : List UInt32} {drawn : List Drawn} {used : Nat}
    (h : draw pool count words = .ok (drawn, used)) {d : Drawn} (listed : d ∈ drawn) : ⟨d.question, d.kind⟩ ∈ pool :=
  mem_of_firstKind? (firstKind?_of_draw_eq_ok h listed)

/-- **What a draw gives**: as many questions as were asked for, at least one, numbered and distinct. -/
theorem draw_eq_ok {words : List UInt32} {drawn : List Drawn} {used : Nat}
    (h : draw pool count words = .ok (drawn, used)) : 1 ≤ count ∧ drawn.length = count ∧ Proper drawn := by
  obtain ⟨positive, enough, rfl⟩ := eq_taken_of_draw_eq_ok h
  obtain ⟨rest, perm, length⟩ := taken_perm enough words
  refine ⟨positive, ?_, ?_, ?_⟩
  · rw [length_number, length]
  · rw [map_sequence_number, length_number]
  · rw [map_question_number]
    have all : ((taken pool count words ++ rest).map (·.question)).Nodup := (perm.map _).nodup_iff.2 (nodup_distinct pool)
    rw [List.map_append] at all
    exact (List.nodup_append.1 all).1

end Outcome

end Proctor.Draw
