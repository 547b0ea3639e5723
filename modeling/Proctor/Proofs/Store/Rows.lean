import Proctor.Proofs.Store.Change

/-!
# The rows of a session

`Tables.slotsOf` lists the slots of one session by id. It is determined by the look-ups that
give a slot of that session (`slotsOf_eq_map`), so a change that leaves these alone leaves the
list alone (`slotsOf_congr`), and a new session has just the slots that were made for it
(`slotsOf_opened_self`).
-/

set_option autoImplicit false

namespace Proctor.Tables

variable {t u : Tables} {id k : Int} {slot : Slot}

theorem mem_slotsOf : slot ∈ t.slotsOf id ↔ slot.session = id ∧ ∃ k, t.slots.get? k = some slot := by
  simp only [slotsOf, List.mem_filter, Table.mem_values, beq_iff_eq]
  exact and_comm

/-- The slots of a session are those of any list by key that has the same look-ups. -/
theorem slotsOf_eq_map {pairs : List (Int × Slot)} (sorted : pairs.Pairwise fun a b => compare a.1 b.1 = .lt)
    (same : ∀ k slot, (k, slot) ∈ pairs ↔ t.slots.get? k = some slot ∧ slot.session = id) :
    t.slotsOf id = pairs.map (·.2) := by
  have listed : t.slots.entries.filter (fun e => e.2.session == id) = pairs := by
    refine Table.eq_of_mem_iff (t.slots.sorted.filter _) sorted ?_
    rintro ⟨k, slot⟩
    rw [same, Table.get?_eq_some, List.mem_filter]
    simp
  rw [← listed, slotsOf, Table.values, List.filter_map]
  rfl

/-- The slots of a session depend on the look-ups that give them, and on nothing else. -/
theorem slotsOf_congr (same : ∀ k slot, slot.session = id → (u.slots.get? k = some slot ↔ t.slots.get? k = some slot)) :
    u.slotsOf id = t.slotsOf id := by
  have sorted := t.slots.sorted.filter fun e => e.2.session == id
  have pairs : ∀ k slot, (k, slot) ∈ t.slots.entries.filter (fun e => e.2.session == id) ↔
      t.slots.get? k = some slot ∧ slot.session = id := by
    intro k slot
    rw [List.mem_filter, Table.get?_eq_some]
    simp
  rw [slotsOf_eq_map (t := t) sorted pairs]
  refine slotsOf_eq_map sorted fun k slot => ?_
  rw [pairs]
  exact and_congr_left fun own => (same k slot own).symm

theorem mem_answersOf {a : Answer} : a ∈ t.answersOf id ↔ ∃ slot ∈ t.slotsOf id, t.answers.get? slot.id = some a := by
  simp [answersOf, sheet]

/-- The grades are those of the answer rows, up to their order. -/
theorem map_isCorrect_answersOf (t : Tables) (id : Int) : ((t.answersOf id).map (·.isCorrect)).Perm (t.gradesOf id) := by
  have grades : t.gradesOf id = ((t.slotsOf id).filterMap fun s => t.answers.get? s.id).map (·.isCorrect) := by
    rw [gradesOf, List.map_filterMap]
  rw [grades]
  exact ((sortBy_perm _ _).filterMap _).map _

theorem length_gradesOf_le (t : Tables) (id : Int) : (t.gradesOf id).length ≤ (t.slotsOf id).length :=
  List.length_filterMap_le _ _

/-! ## A new session -/

variable {terms : Terms} {drawn : List Drawn}

theorem mem_slotsFor : slot ∈ t.slotsFor id drawn ↔
    ∃ (i : Nat) (d : Drawn), drawn[i]? = some d ∧ slot = ⟨t.lastSlot + i + 1, id, d.question, d.sequence, d.kind⟩ := by
  simp only [slotsFor, List.mem_map, Prod.exists, List.mem_zipIdx_iff_getElem?]
  constructor
  · rintro ⟨d, i, at_i, rfl⟩
    exact ⟨i, d, at_i, rfl⟩
  · rintro ⟨i, d, at_i, rfl⟩
    exact ⟨d, i, at_i, rfl⟩

/-- The ids of new slots lie between the two states of the counter. -/
theorem bounds_of_mem_slotsFor (h : slot ∈ t.slotsFor id drawn) :
    slot.session = id ∧ t.lastSlot < slot.id ∧ slot.id ≤ t.lastSlot + drawn.length := by
  obtain ⟨i, d, at_i, rfl⟩ := mem_slotsFor.1 h
  obtain ⟨hi, -⟩ := List.getElem?_eq_some_iff.1 at_i
  refine ⟨rfl, ?_, ?_⟩ <;> dsimp only <;> omega

theorem pairwise_slotsFor (t : Tables) (id : Int) (drawn : List Drawn) :
    (t.slotsFor id drawn).Pairwise fun a b => a.id < b.id := by
  rw [List.pairwise_iff_getElem]
  intro i j hi hj lt
  simp only [slotsFor, List.getElem_map, List.getElem_zipIdx]
  omega

theorem map_sequence_slotsFor (t : Tables) (id : Int) (drawn : List Drawn) :
    (t.slotsFor id drawn).map (·.sequence) = drawn.map (·.sequence) := by
  apply List.ext_getElem <;> simp [slotsFor]

theorem map_question_slotsFor (t : Tables) (id : Int) (drawn : List Drawn) :
    (t.slotsFor id drawn).map (·.question) = drawn.map (·.question) := by
  apply List.ext_getElem <;> simp [slotsFor]

/-- What is found after rows with distinct ids were put in one after the other. -/
theorem get?_foldl_insert {rows : List Slot} (distinct : rows.Pairwise fun a b => a.id ≠ b.id) (slots : Table Int Slot) :
    (rows.foldl (fun slots s => slots.insert s.id s) slots).get? k = some slot ↔
      (slot ∈ rows ∧ slot.id = k) ∨ (slots.get? k = some slot ∧ ∀ s ∈ rows, s.id ≠ k) := by
  induction rows generalizing slots with
  | nil => simp
  | cons r rows ih =>
    obtain ⟨apart, distinct⟩ := List.pairwise_cons.1 distinct
    rw [List.foldl_cons, ih distinct, Table.get?_insert]
    by_cases here : k = r.id
    · subst here
      have others : ∀ s ∈ rows, s.id ≠ r.id := fun s hs => (apart s hs).symm
      simp only [if_true, Option.some.injEq, List.mem_cons, forall_eq_or_imp, ne_eq, not_true_eq_false, false_and,
        and_false, or_false]
      constructor
      · rintro (⟨listed, eq⟩ | ⟨rfl, -⟩)
        · exact absurd eq (others slot listed)
        · exact ⟨.inl rfl, rfl⟩
      · rintro ⟨rfl | listed, eq⟩
        · exact .inr ⟨rfl, others⟩
        · exact absurd eq (others slot listed)
    · have there : ¬r.id = k := fun e => here e.symm
      simp only [if_neg here, List.mem_cons, forall_eq_or_imp, ne_eq, there, not_false_eq_true, true_and]
      refine or_congr_left (and_congr_left fun eq => ?_)
      refine ⟨.inr, fun h => h.resolve_left ?_⟩
      rintro rfl
      exact there eq

/-- The slots after a session was opened: the new ones and those from before. -/
theorem get?_slots_opened (bounded : ∀ k slot, t.slots.get? k = some slot → k ≤ t.lastSlot) :
    (t.opened terms drawn).slots.get? k = some slot ↔
      (slot ∈ t.slotsFor (t.lastSession + 1) drawn ∧ slot.id = k) ∨ t.slots.get? k = some slot := by
  have distinct := (t.pairwise_slotsFor (t.lastSession + 1) drawn).imp Int.ne_of_lt
  refine (get?_foldl_insert distinct t.slots).trans (or_congr_right ⟨And.left, fun held => ⟨held, ?_⟩⟩)
  intro s listed eq
  have := bounded k slot held
  have := (bounds_of_mem_slotsFor listed).2.1
  omega

/-- A new session has the slots that were made for it. -/
theorem slotsOf_opened_self (bounded : ∀ k slot, t.slots.get? k = some slot → k ≤ t.lastSlot)
    (unused : ∀ k slot, t.slots.get? k = some slot → slot.session ≠ t.lastSession + 1) :
    (t.opened terms drawn).slotsOf (t.lastSession + 1) = t.slotsFor (t.lastSession + 1) drawn := by
  have sorted : ((t.slotsFor (t.lastSession + 1) drawn).map fun s => (s.id, s)).Pairwise
      fun a b => compare a.1 b.1 = .lt := by
    refine List.pairwise_map.2 ((t.pairwise_slotsFor _ _).imp fun lt => ?_)
    exact Int.compare_eq_lt.2 lt
  rw [slotsOf_eq_map sorted]
  · rw [List.map_map]
    exact List.map_id _
  intro k slot
  rw [get?_slots_opened bounded]
  simp only [List.mem_map, Prod.mk.injEq]
  constructor
  · rintro ⟨s, listed, rfl, rfl⟩
    exact ⟨.inl ⟨listed, rfl⟩, (bounds_of_mem_slotsFor listed).1⟩
  · rintro ⟨⟨listed, eq⟩ | held, own⟩
    · exact ⟨slot, listed, eq, rfl⟩
    · exact absurd own (unused k slot held)

/-- The other sessions keep their slots. -/
theorem slotsOf_opened_of_ne (bounded : ∀ k slot, t.slots.get? k = some slot → k ≤ t.lastSlot)
    (ne : id ≠ t.lastSession + 1) : (t.opened terms drawn).slotsOf id = t.slotsOf id := by
  refine slotsOf_congr fun k slot own => ?_
  rw [get?_slots_opened bounded]
  refine ⟨fun h => h.resolve_left ?_, .inr⟩
  rintro ⟨listed, -⟩
  exact ne (own.symm.trans (bounds_of_mem_slotsFor listed).1)

theorem find?_opened : (t.opened terms drawn).find? id = if id = t.lastSession + 1 then some (t.opening terms drawn) else t.find? id :=
  Table.get?_insert _ _ _ _

/-- A session that is stored afterwards is the new one or was stored before. -/
theorem find?_opened_eq_some {s : Session} : (t.opened terms drawn).find? id = some s ↔
    (id = t.lastSession + 1 ∧ s = t.opening terms drawn) ∨ (id ≠ t.lastSession + 1 ∧ t.find? id = some s) := by
  rw [find?_opened]
  split
  · rename_i new
    simp [new, eq_comm]
  · rename_i old
    simp [old]

theorem find?_opened_ne_none {s : Session} (stored : t.find? id = some s) : (t.opened terms drawn).find? id ≠ none := by
  rw [find?_opened]
  split <;> simp [stored]

/-- What a creation gives is what is stored then. -/
theorem find?_of_create {s : Session} (h : t.create terms drawn = (.ok s, u)) : u.find? s.id = some s := by
  obtain ⟨_, eq⟩ | ⟨-, eq⟩ := t.create_cases terms drawn
  · rw [eq] at h
    cases h
  · rw [eq] at h
    cases h
    rw [find?_opened, opening, if_pos rfl]

/-! ## The end and the removal of a session -/

variable {s s' : Session} {other : Int}

theorem find?_ended : (t.ended id s').find? other = if other = id then some s' else t.find? other :=
  Table.get?_insert _ _ _ _

theorem find?_ended_eq_some {r : Session} : (t.ended id s').find? other = some r ↔
    (other = id ∧ r = s') ∨ (other ≠ id ∧ t.find? other = some r) := by
  rw [find?_ended]
  split
  · rename_i here
    simp [here, eq_comm]
  · rename_i there
    simp [there]

theorem find?_ended_ne_none {r : Session} (stored : t.find? other = some r) : (t.ended id s').find? other ≠ none := by
  rw [find?_ended]
  split <;> simp [stored]

/-- What a time-out gives is what is stored then. -/
theorem find?_of_markTimedOut {now : Instant} (h : t.markTimedOut id now = (.ok s', u)) : u.find? id = some s' := by
  rcases t.markTimedOut_cases id now with ⟨-, eq⟩ | ⟨s, stored, -, eq⟩ | ⟨s, -, -, eq⟩
  · rw [eq] at h
    cases h
  · rw [eq] at h
    cases h
    exact stored
  · rw [eq] at h
    cases h
    rw [find?_ended, if_pos rfl]

/-- What a time-out gives is not ongoing any more. -/
theorem status_of_markTimedOut {now : Instant} (h : t.markTimedOut id now = (.ok s', u)) : s'.status ≠ .ongoing := by
  rcases t.markTimedOut_cases id now with ⟨-, eq⟩ | ⟨s, -, finished, eq⟩ | ⟨s, -, -, eq⟩
  · rw [eq] at h
    cases h
  · rw [eq] at h
    cases h
    exact finished
  · rw [eq] at h
    cases h
    exact fun ongoing => by cases ongoing

theorem find?_removed : (t.removed id s).find? other = if other = id then none else t.find? other :=
  Table.get?_erase _ _ _

theorem find?_removed_eq_some {r : Session} :
    (t.removed id s).find? other = some r ↔ other ≠ id ∧ t.find? other = some r := by
  rw [find?_removed]
  split
  · rename_i here
    simp [here]
  · rename_i ne
    simp [ne]

theorem get?_slots_removed : (t.removed id s).slots.get? k = some slot ↔ t.slots.get? k = some slot ∧ slot.session ≠ id := by
  simp only [removed, Table.get?_filter, Option.filter_eq_some_iff, bne_iff_ne]

theorem slotsOf_removed_of_ne (ne : other ≠ id) : (t.removed id s).slotsOf other = t.slotsOf other := by
  refine slotsOf_congr fun k slot own => ?_
  rw [get?_slots_removed, own]
  exact and_iff_left ne

theorem owns_iff : t.owns id k = true ↔ ∃ slot, t.slots.get? k = some slot ∧ slot.session = id := by
  simp [owns, Option.any_eq_true]

theorem get?_answers_removed {a : Answer} : (t.removed id s).answers.get? k = some a ↔
    t.answers.get? k = some a ∧ ¬∃ slot, t.slots.get? k = some slot ∧ slot.session = id := by
  simp only [removed, Table.get?_filter, Option.filter_eq_some_iff, ← owns_iff]
  simp

end Proctor.Tables
