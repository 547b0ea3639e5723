import Proctor.Proofs.Draw
import Mathlib.Data.Nat.Factorial.Basic
import Mathlib.Data.Set.Function
import Mathlib.Probability.Distributions.Uniform

/-!
# Every selection is equally likely

A draw is the tail of a shuffle that exchanges entries in place (`drop_shuffle`). The indices tell the selection and each selection has its
indices (`bijOn_select`), so if every index is uniform and independent of those before it, all selections have the same probability
(`weight_map`). Random words can give any indices (`exists_words`), so no selection is out of reach. `draw_uniform`
says all this of the questions of a pool.
-/

set_option autoImplicit false

namespace Proctor.Draw

/-! ## Shuffling in place -/

section Shuffle

variable {α β : Type}

/-- Exchanges the entries at `i` and `j`. -/
def swap (l : List α) (i j : Nat) : List α :=
  match l[i]?, l[j]? with
  | some a, some b => (l.set i b).set j a
  | _, _ => l

/-- Exchanges the last of the first `m` entries with the one at the next index, and goes on with the entries before it. -/
def shuffle : List Nat → Nat → List α → List α
  | [], _, l => l
  | j :: js, m, l => shuffle js (m - 1) (swap l (m - 1) j)

/-- The entry at `j` comes behind those that `refill` leaves. -/
theorem swap_append {front : List α} {j : Nat} (h : j < front.length) (back : List α) :
    swap (front ++ back) (front.length - 1) j = refill front j ++ front[j] :: back := by
  obtain ⟨init, z, rfl⟩ := (List.eq_nil_or_concat' front).resolve_left fun e => by simp [e] at h
  have last : (init ++ [z]).length - 1 = init.length := by simp
  have getLast : (init ++ [z]).getLast? = some z := List.getLast?_concat
  simp only [refill, getLast, last]
  have at_last : (init ++ [z] ++ back)[init.length]? = some z := by simp
  have at_j : (init ++ [z] ++ back)[j]? = some (init ++ [z])[j] := by
    rw [List.getElem?_append_left h, List.getElem?_eq_getElem h]
  simp only [swap, at_last, at_j]
  by_cases inside : j < init.length
  · rw [List.set_append_left _ _ inside, List.dropLast_concat]
    simp [List.set_append_left _ _ inside]
  · have here : j = init.length := by
      simp at h
      omega
    subst here
    simp

/-- **The entries that are taken are the tail of the shuffle.** -/
theorem drop_shuffle {js : List Nat} {front : List α} (h : InRange js front.length) (back : List α) :
    (shuffle js front.length (front ++ back)).drop (front.length - js.length) = select js front back := by
  induction js generalizing front back with
  | nil => simp [shuffle, select]
  | cons j js ih =>
    obtain ⟨hj, hjs⟩ := h
    rw [← length_refill hj] at hjs
    have rest := ih hjs (front[j] :: back)
    rw [length_refill hj] at rest
    have unfolded : select (j :: js) front back = select js (refill front j) (front[j] :: back) := by
      simp only [select, List.getElem?_eq_getElem hj]
    rw [unfolded, ← rest, shuffle, swap_append hj]
    congr 1
    rw [List.length_cons]
    omega

theorem map_refill (f : α → β) (l : List α) (j : Nat) : (refill l j).map f = refill (l.map f) j := by
  unfold refill
  rw [List.getLast?_map]
  cases l.getLast? with
  | none => rfl
  | some z => simp [List.map_dropLast, List.map_set]

theorem map_select (f : α → β) (js : List Nat) (l taken : List α) :
    (select js l taken).map f = select js (l.map f) (taken.map f) := by
  induction js generalizing l taken with
  | nil => rfl
  | cons j js ih =>
    simp only [select, List.getElem?_map]
    cases l[j]? with
    | none => rfl
    | some a => simp only [Option.map_some, ih, map_refill, List.map_cons]

end Shuffle

/-! ## Indices and selections -/

section Selections

variable {α : Type} {l : List α} {m count : Nat}

/-- The indices that can be chosen for a draw of `count` out of `m` entries. -/
def choices (m count : Nat) : Set (List Nat) := {js | js.length = count ∧ InRange js m}

/-- The ordered selections of `count` different entries of a list. -/
def selections (l : List α) (count : Nat) : Set (List α) := {s | s.length = count ∧ s.Nodup ∧ ∀ a ∈ s, a ∈ l}

theorem select_append (js : List Nat) (l taken more : List α) : select js l (taken ++ more) = select js l taken ++ more := by
  induction js generalizing l taken with
  | nil => rfl
  | cons j js ih =>
    simp only [select]
    cases l[j]? with
    | none => rfl
    | some a => exact ih (refill l j) (a :: taken)

/-- The first entry that is taken is the last one of the selection. -/
theorem select_cons {j : Nat} (h : j < l.length) (js : List Nat) : select (j :: js) l [] = select js (refill l j) [] ++ [l[j]] := by
  rw [← select_append]
  simp only [select, List.getElem?_eq_getElem h, List.nil_append]

theorem nodup_refill {j : Nat} (h : j < l.length) (distinct : l.Nodup) : (refill l j).Nodup ∧ l[j] ∉ refill l j := by
  have both := (refill_perm h).nodup_iff.2 distinct
  exact ⟨(List.nodup_cons.1 both).2, (List.nodup_cons.1 both).1⟩

theorem mapsTo_select (distinct : l.Nodup) : Set.MapsTo (select · l []) (choices l.length count) (selections l count) := by
  rintro js ⟨rfl, inRange⟩
  obtain ⟨rest, perm, length⟩ := select_perm [] inRange
  have all : (select js l [] ++ rest).Nodup := perm.nodup_iff.2 distinct
  refine ⟨length.trans (Nat.zero_add _), (List.nodup_append.1 all).1, fun a listed => ?_⟩
  exact perm.mem_iff.1 (List.mem_append_left rest listed)

/-- **Different indices give different selections**, as the last entry of a selection tells the first index. -/
theorem injOn_select (distinct : l.Nodup) : Set.InjOn (select · l []) (choices l.length count) := by
  rintro js ⟨length, inRange⟩ ks ⟨length', inRange'⟩ same
  induction js generalizing l ks count with
  | nil =>
    obtain rfl : ks = [] := List.length_eq_zero_iff.1 (length'.trans length.symm)
    rfl
  | cons j js ih =>
    cases ks with
    | nil => cases length.trans length'.symm
    | cons k ks =>
      obtain ⟨hj, hjs⟩ := inRange
      obtain ⟨hk, hks⟩ := inRange'
      dsimp only at same
      rw [select_cons hj, select_cons hk] at same
      obtain ⟨before, last⟩ := List.append_inj' same rfl
      obtain rfl : j = k := (List.Nodup.getElem_inj_iff distinct).1 (List.cons.inj last).1
      rw [← length_refill hj] at hjs hks
      congr 1
      exact ih (nodup_refill hj distinct).1 rfl hjs (Nat.succ.inj (length'.trans length.symm)) hks before

/-- **Every selection has its indices**: the first one is where its last entry stands. -/
theorem surjOn_select (distinct : l.Nodup) : Set.SurjOn (select · l []) (choices l.length count) (selections l count) := by
  rintro s ⟨rfl, once, listed⟩
  induction s using List.reverseRecOn generalizing l with
  | nil => exact ⟨[], ⟨rfl, trivial⟩, rfl⟩
  | append_singleton s a ih =>
    obtain ⟨j, hj, rfl⟩ := List.getElem_of_mem (listed a (by simp))
    obtain ⟨once, -, apart⟩ := List.nodup_append.1 once
    have left : ∀ b ∈ s, b ∈ refill l j := by
      intro b here
      have known := (refill_perm hj).mem_iff.2 (listed b (List.mem_append_left _ here))
      exact (List.mem_cons.1 known).resolve_left (apart b here _ (by simp))
    obtain ⟨js, ⟨length, inRange⟩, rfl⟩ := ih (nodup_refill hj distinct).1 once left
    rw [length_refill hj] at inRange
    refine ⟨j :: js, ⟨?_, hj, inRange⟩, select_cons hj js⟩
    simp only [List.length_cons, List.length_append, List.length_nil, length]

theorem bijOn_select (distinct : l.Nodup) : Set.BijOn (select · l []) (choices l.length count) (selections l count) :=
  ⟨mapsTo_select distinct, injOn_select distinct, surjOn_select distinct⟩

end Selections

/-! ## Uniform indices -/

section Chance

variable {m count : Nat} {js : List Nat}

/-- Indices for a draw of `count` out of `m` entries: each is uniform, whatever those before it are. -/
noncomputable def fairIndices : Nat → Nat → PMF (List Nat)
  | 0, _ => PMF.pure []
  | _ + 1, 0 => PMF.pure []
  | count + 1, m + 1 => (PMF.uniformOfFintype (Fin (m + 1))).bind fun j => (fairIndices count m).map (j.val :: ·)

/-- Only indices that can be chosen come up. -/
theorem mem_choices_of_mem_support (enough : count ≤ m) (possible : js ∈ (fairIndices count m).support) : js ∈ choices m count := by
  induction count generalizing m js with
  | zero =>
    obtain rfl : js = [] := by simpa [fairIndices] using possible
    exact ⟨rfl, trivial⟩
  | succ count ih =>
    obtain ⟨m, rfl⟩ := Nat.exists_eq_add_one_of_ne_zero (by omega : m ≠ 0)
    rw [fairIndices, PMF.mem_support_bind_iff] at possible
    obtain ⟨j, -, possible⟩ := possible
    obtain ⟨ks, left, rfl⟩ := (PMF.mem_support_map_iff _ _ _).1 possible
    have fewer : count ≤ m := by omega
    obtain ⟨length, inRange⟩ := ih fewer left
    exact ⟨congrArg Nat.succ length, j.isLt, inRange⟩

/-- **All indices that can be chosen are equally likely.** -/
theorem fairIndices_apply (chosen : js ∈ choices m count) : fairIndices count m js = (m.descFactorial count : ENNReal)⁻¹ := by
  induction count generalizing m js with
  | zero =>
    obtain rfl : js = [] := List.length_eq_zero_iff.1 chosen.1
    simp [fairIndices]
  | succ count ih =>
    obtain ⟨length, inRange⟩ := chosen
    cases js with
    | nil => cases length
    | cons j js =>
      obtain ⟨hj, hjs⟩ := inRange
      obtain ⟨m, rfl⟩ := Nat.exists_eq_add_one_of_ne_zero (by omega : m ≠ 0)
      have rest : fairIndices count m js = (m.descFactorial count : ENNReal)⁻¹ := ih ⟨Nat.succ.inj length, hjs⟩
      -- after an index `k` the indices begin with `k`
      have after : ∀ k : Fin (m + 1), ((fairIndices count m).map (k.val :: ·)) (j :: js) =
          if k = ⟨j, hj⟩ then fairIndices count m js else 0 := by
        intro k
        rw [PMF.map_apply]
        by_cases here : k = ⟨j, hj⟩
        · subst here
          rw [if_pos rfl]
          refine (tsum_eq_single js fun ks other => if_neg fun same => ?_).trans (if_pos rfl)
          exact other (List.cons.inj same).2.symm
        · rw [if_neg here]
          refine ENNReal.tsum_eq_zero.2 fun ks => if_neg fun same => here ?_
          exact Fin.ext (List.cons.inj same).1.symm
      rw [fairIndices, PMF.bind_apply, tsum_fintype, Finset.sum_eq_single ⟨j, hj⟩]
      · rw [after, if_pos rfl, rest, PMF.uniformOfFintype_apply, Fintype.card_fin, Nat.succ_descFactorial_succ, Nat.cast_mul,
          ENNReal.mul_inv (.inr (ENNReal.natCast_ne_top _)) (.inl (ENNReal.natCast_ne_top _))]
      · intro k _ other
        rw [after, if_neg other, mul_zero]
      · intro absent
        exact absurd (Finset.mem_univ _) absent

/-- What is told by the indices, each result by indices of its own, is equally likely, too. -/
theorem weight_map {α : Type} {f : List Nat → α} {results : Set α} (bijOn : Set.BijOn f (choices m count) results) (enough : count ≤ m)
    {a : α} (result : a ∈ results) : ((fairIndices count m).map f) a = (m.descFactorial count : ENNReal)⁻¹ := by
  obtain ⟨js, chosen, rfl⟩ := bijOn.surjOn result
  have others : ∀ ks, ks ≠ js → f ks = f js → fairIndices count m ks = 0 := by
    intro ks other same
    by_contra possible
    have chosen' := mem_choices_of_mem_support enough ((PMF.mem_support_iff _ _).2 possible)
    exact other (bijOn.injOn chosen' chosen same)
  rw [PMF.map_apply, ← fairIndices_apply chosen]
  refine (tsum_eq_single js fun ks other => ?_).trans (if_pos rfl)
  split
  · rename_i same
    exact others ks other same.symm
  · rfl

end Chance

/-! ## Words -/

section Words

variable {m : Nat}

theorem pred_le_zone (m : Nat) : m - 1 ≤ zone m := by
  have shifted : m ≤ m <<< (31 - Nat.log2 m) := by
    rw [Nat.shiftLeft_eq]
    exact Nat.le_mul_of_pos_right m (Nat.two_pow_pos _)
  unfold zone
  omega

/-- Every index is that of some word which is not passed over. -/
theorem exists_word {j : Nat} (h : j < m) (small : m ≤ 0x100000000) : ∃ v : UInt32, ∀ words, index m (v :: words) = (j, words, 1) := by
  -- the least word whose product is not below `j` times the number of words
  let v := (j * 0x100000000 + (m - 1)) / m
  have above : v * m ≤ j * 0x100000000 + (m - 1) := Nat.div_mul_le_self _ _
  have below : j * 0x100000000 ≤ v * m := by
    have split : m * v + (j * 0x100000000 + (m - 1)) % m = j * 0x100000000 + (m - 1) := Nat.div_add_mod _ _
    have rest := Nat.mod_lt (j * 0x100000000 + (m - 1)) (by omega : 0 < m)
    rw [Nat.mul_comm] at split
    omega
  have fits : v < 0x100000000 := (Nat.div_lt_iff_lt_mul (by omega)).2 (by omega)
  refine ⟨UInt32.ofNat v, fun words => ?_⟩
  have word : (UInt32.ofNat v).toNat = v := UInt32.toNat_ofNat_of_lt' fits
  have accepted : v * m % 0x100000000 ≤ zone m := by
    have := pred_le_zone m
    omega
  have high : v * m / 0x100000000 = j := by omega
  simp only [index, word, accepted, high, if_true]

theorem exists_words {js : List Nat} (inRange : InRange js m) (small : m ≤ 0x100000000) :
    ∃ words, (indices js.length m words).1 = js := by
  induction js generalizing m with
  | nil => exact ⟨[], rfl⟩
  | cons j js ih =>
    obtain ⟨hj, hjs⟩ := inRange
    obtain ⟨v, first⟩ := exists_word hj small
    obtain ⟨words, rest⟩ := ih hjs (by omega)
    exact ⟨v :: words, by simp only [List.length_cons, indices, first, rest]⟩

end Words

/-- **A draw is uniform**, for a pool with at least as many different questions as are asked for. It takes the last entries of a shuffle in place
of the pool. Which questions these are, and in which order, is told by the indices, and each ordered selection of different questions
of the pool by just one list of indices. So if each index is uniform whatever those before it are, all selections are equally likely;
and there are words that lead to each of them. -/
theorem draw_uniform (pool : List PoolEntry) {count : Nat} (positive : 1 ≤ count) (enough : count ≤ available pool) :
    let n := available pool
    let tail (js : List Nat) := (shuffle js n (distinct pool)).drop (n - count)
    let questions (js : List Nat) := (tail js).map (·.question)
    let ordered := selections (pool.map (·.question)) count
    (∀ words, (indices count n words).1 ∈ choices n count ∧
      draw pool count words = .ok (number (tail (indices count n words).1), (indices count n words).2)) ∧
    Set.BijOn questions (choices n count) ordered ∧
    (∀ ids ∈ ordered, ((fairIndices count n).map questions) ids = (n.descFactorial count : ENNReal)⁻¹) ∧
    (n < 0x100000000 → ∀ ids ∈ ordered, ∃ words drawn used, draw pool count words = .ok (drawn, used) ∧
      drawn.map (·.question) = ids) := by
  intro n tail questions ordered
  have length : (distinct pool).length = n := length_distinct pool
  have tail_eq : ∀ js ∈ choices n count, tail js = select js (distinct pool) [] := by
    rintro js ⟨rfl, inRange⟩
    have taken := drop_shuffle (length ▸ inRange) ([] : List PoolEntry)
    rwa [List.append_nil, length] at taken
  have chosen : ∀ words, (indices count n words).1 ∈ choices n count :=
    fun words => ⟨length_indices count n words, inRange_indices enough words⟩
  have drew : ∀ words, draw pool count words = .ok (number (tail (indices count n words).1), (indices count n words).2) := by
    intro words
    rw [draw_of_enough positive (length ▸ enough), taken, length, tail_eq _ (chosen words)]
  have bijOn : Set.BijOn questions (choices n count) ordered := by
    have selected : Set.BijOn (select · ((distinct pool).map (·.question)) []) (choices n count)
        (selections ((distinct pool).map (·.question)) count) := by
      have all : Set.BijOn _ (choices _ count) _ := bijOn_select (nodup_distinct pool)
      rwa [List.length_map, length] at all
    have same : selections ((distinct pool).map (·.question)) count = ordered := by
      simp only [selections, ordered, mem_questions_distinct]
    rw [same] at selected
    refine selected.congr fun js here => ?_
    simp only [questions, tail_eq js here, map_select, List.map_nil]
  refine ⟨fun words => ⟨chosen words, drew words⟩, bijOn, fun ids listed => weight_map bijOn enough listed, ?_⟩
  intro small ids listed
  obtain ⟨js, ⟨rfl, inRange⟩, rfl⟩ := bijOn.surjOn listed
  obtain ⟨words, told⟩ := exists_words inRange (by omega)
  refine ⟨words, _, _, drew words, ?_⟩
  rw [map_question_number, told]

/-- Of three questions, one of them repeated, two are drawn: this selection has one sixth of the probability, and some words lead to it. -/
theorem draw_uniform_of_three :
    let pool : List PoolEntry := [⟨3, .dragDrop⟩, ⟨7, .singleChoice⟩, ⟨3, .singleChoice⟩, ⟨5, .dragDrop⟩]
    1 ≤ 2 ∧ 2 ≤ available pool ∧ [7, 3] ∈ selections (pool.map (·.question)) 2 ∧
      ((fairIndices 2 (available pool)).map fun js => ((shuffle js (available pool) (distinct pool)).drop
        (available pool - 2)).map (·.question)) [7, 3] = 6⁻¹ ∧
      ∃ words drawn used, draw pool 2 words = .ok (drawn, used) ∧ drawn.map (·.question) = [7, 3] := by
  intro pool
  have three : available pool = 3 := by decide
  have selected : [7, 3] ∈ selections (pool.map (·.question)) 2 := ⟨rfl, by decide, by decide⟩
  obtain ⟨-, -, likely, reached⟩ := @draw_uniform pool 2 (by decide) (by decide)
  refine ⟨by decide, by decide, selected, (likely _ selected).trans ?_, reached (by rw [three]; decide) _ selected⟩
  rw [three]
  norm_num [Nat.descFactorial]

end Proctor.Draw
