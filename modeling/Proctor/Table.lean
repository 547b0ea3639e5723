/-!
# Finite maps in key order

A `Table` lists its entries in strictly increasing key order, so a map has one
representation and two tables with the same look-ups are equal (`Table.ext_get?`).
Each operation has one lemma that says what it does to `get?`.
-/

set_option autoImplicit false

namespace Proctor

/-- A finite map from `κ` to `ν`, listed by increasing key. -/
structure Table (κ ν : Type) [Ord κ] where
  entries : List (κ × ν)
  sorted : entries.Pairwise (fun a b => compare a.1 b.1 = .lt)
deriving DecidableEq

namespace Table

variable {κ ν : Type} [Ord κ]

/-- The entry list with `k ↦ v` put in its place, replacing an entry with the same key. -/
def put (k : κ) (v : ν) : List (κ × ν) → List (κ × ν)
  | [] => [(k, v)]
  | e :: rest =>
    match compare k e.1 with
    | .lt => (k, v) :: e :: rest
    | .eq => (k, v) :: rest
    | .gt => e :: put k v rest

/-- The value of the first entry with key `k`. -/
def find (k : κ) : List (κ × ν) → Option ν
  | [] => none
  | e :: rest => if compare k e.1 = .eq then some e.2 else find k rest

def empty : Table κ ν := ⟨[], .nil⟩

instance : EmptyCollection (Table κ ν) := ⟨empty⟩

instance : Inhabited (Table κ ν) := ⟨empty⟩

/-- The value stored under `k`. -/
def get? (t : Table κ ν) (k : κ) : Option ν := find k t.entries

def contains (t : Table κ ν) (k : κ) : Bool := (t.get? k).isSome

/-- The keys, in increasing order. -/
def keys (t : Table κ ν) : List κ := t.entries.map (·.1)

/-- The values, in increasing order of their keys. -/
def values (t : Table κ ν) : List ν := t.entries.map (·.2)

def size (t : Table κ ν) : Nat := t.entries.length

/-- Keeps the entries that satisfy `p`. -/
def filter (p : κ → ν → Bool) (t : Table κ ν) : Table κ ν :=
  ⟨t.entries.filter fun e => p e.1 e.2, t.sorted.filter _⟩

def erase (t : Table κ ν) (k : κ) : Table κ ν := t.filter fun k' _ => compare k k' != .eq

@[simp] theorem get?_empty (k : κ) : (∅ : Table κ ν).get? k = none := rfl

theorem mem_put {k : κ} {v : ν} {l : List (κ × ν)} {e : κ × ν} (h : e ∈ put k v l) :
    e = (k, v) ∨ e ∈ l := by
  induction l with
  | nil => exact .inl (by simpa [put] using h)
  | cons a rest ih =>
    unfold put at h
    split at h
    · exact List.mem_cons.1 h
    · exact (List.mem_cons.1 h).imp id (List.mem_cons_of_mem a)
    · obtain rfl | h := List.mem_cons.1 h
      · exact .inr List.mem_cons_self
      · exact (ih h).imp id (List.mem_cons_of_mem a)

section Lawful

variable [Std.TransOrd κ]

theorem pairwise_put (k : κ) (v : ν) {l : List (κ × ν)}
    (h : l.Pairwise (fun a b => compare a.1 b.1 = .lt)) :
    (put k v l).Pairwise (fun a b => compare a.1 b.1 = .lt) := by
  induction l with
  | nil => simp [put]
  | cons a rest ih =>
    obtain ⟨below, tail⟩ := List.pairwise_cons.1 h
    unfold put
    split
    · rename_i lt
      refine List.pairwise_cons.2 ⟨fun e he => ?_, h⟩
      obtain rfl | he := List.mem_cons.1 he
      · exact lt
      · exact Std.TransCmp.lt_trans lt (below e he)
    · rename_i eq
      exact List.pairwise_cons.2 ⟨fun e he => Std.TransCmp.lt_of_eq_of_lt eq (below e he), tail⟩
    · rename_i gt
      refine List.pairwise_cons.2 ⟨fun e he => ?_, ih tail⟩
      obtain rfl | he := mem_put he
      · exact Std.OrientedCmp.gt_iff_lt.1 gt
      · exact below e he

/-- Stores `v` under `k`, replacing what was there. -/
def insert (t : Table κ ν) (k : κ) (v : ν) : Table κ ν := ⟨put k v t.entries, pairwise_put k v t.sorted⟩

/-- The table of a list of pairs; of two pairs with one key the later counts. -/
def ofList (l : List (κ × ν)) : Table κ ν := l.foldl (fun t e => t.insert e.1 e.2) ∅

end Lawful

section Lookup

variable [Std.LawfulEqOrd κ]

theorem find_eq_some {k : κ} {v : ν} {l : List (κ × ν)}
    (h : l.Pairwise (fun a b => compare a.1 b.1 = .lt)) : find k l = some v ↔ (k, v) ∈ l := by
  induction l with
  | nil => simp [find]
  | cons a rest ih =>
    obtain ⟨below, tail⟩ := List.pairwise_cons.1 h
    unfold find
    split
    · rename_i eq
      obtain rfl := Std.LawfulEqCmp.eq_of_compare eq
      refine ⟨fun e => by cases e; exact List.mem_cons_self, fun e => ?_⟩
      obtain e | e := List.mem_cons.1 e
      · rw [← e]
      · have := below _ e
        simp at this
    · rename_i ne
      rw [ih tail, List.mem_cons]
      exact ⟨.inr, fun e => e.resolve_left fun e => ne (by rw [← e]; exact Std.ReflCmp.compare_self)⟩

theorem get?_eq_some {t : Table κ ν} {k : κ} {v : ν} : t.get? k = some v ↔ (k, v) ∈ t.entries :=
  find_eq_some t.sorted

theorem get?_filter (t : Table κ ν) (p : κ → ν → Bool) (k : κ) : (t.filter p).get? k = (t.get? k).filter (p k) := by
  apply Option.ext
  intro v
  rw [get?_eq_some, Option.filter_eq_some_iff, get?_eq_some]
  exact List.mem_filter

theorem mem_values {t : Table κ ν} {v : ν} : v ∈ t.values ↔ ∃ k, t.get? k = some v := by
  simp only [values, List.mem_map, get?_eq_some]
  exact ⟨fun ⟨e, he, hv⟩ => ⟨e.1, hv ▸ he⟩, fun ⟨k, he⟩ => ⟨(k, v), he, rfl⟩⟩

theorem mem_keys {t : Table κ ν} {k : κ} : k ∈ t.keys ↔ ∃ v, t.get? k = some v := by
  simp only [keys, List.mem_map, get?_eq_some]
  exact ⟨fun ⟨e, he, hk⟩ => ⟨e.2, hk ▸ he⟩, fun ⟨v, he⟩ => ⟨(k, v), he, rfl⟩⟩

theorem eq_of_mem_iff [Std.TransOrd κ] {l m : List (κ × ν)} (hl : l.Pairwise (fun a b => compare a.1 b.1 = .lt))
    (hm : m.Pairwise (fun a b => compare a.1 b.1 = .lt)) (h : ∀ e, e ∈ l ↔ e ∈ m) : l = m := by
  induction l generalizing m with
  | nil =>
    cases m with
    | nil => rfl
    | cons b m => exact absurd ((h b).2 List.mem_cons_self) (by simp)
  | cons a l ih =>
    cases m with
    | nil => exact absurd ((h a).1 List.mem_cons_self) (by simp)
    | cons b m =>
      obtain ⟨belowA, tailL⟩ := List.pairwise_cons.1 hl
      obtain ⟨belowB, tailM⟩ := List.pairwise_cons.1 hm
      have ab : a = b := by
        obtain e | e := List.mem_cons.1 ((h a).1 List.mem_cons_self)
        · exact e
        obtain e' | e' := List.mem_cons.1 ((h b).2 List.mem_cons_self)
        · exact e'.symm
        have := Std.TransCmp.lt_trans (belowA _ e') (belowB _ e)
        simp at this
      subst ab
      congr 1
      refine ih tailL tailM fun e => ⟨fun he => ?_, fun he => ?_⟩
      · refine (List.mem_cons.1 ((h e).1 (List.mem_cons_of_mem a he))).resolve_left fun eq => ?_
        have := belowA e he
        simp [eq] at this
      · refine (List.mem_cons.1 ((h e).2 (List.mem_cons_of_mem a he))).resolve_left fun eq => ?_
        have := belowB e he
        simp [eq] at this

/-- Tables with the same look-ups are equal. -/
theorem ext_get? [Std.TransOrd κ] {t u : Table κ ν} (h : ∀ k, t.get? k = u.get? k) : t = u := by
  have : t.entries = u.entries := eq_of_mem_iff t.sorted u.sorted fun ⟨k, v⟩ => by
    rw [← get?_eq_some, ← get?_eq_some, h]
  cases t
  cases u
  simpa using this

variable [DecidableEq κ]

theorem find_put (k k' : κ) (v : ν) (l : List (κ × ν)) :
    find k' (put k v l) = if k' = k then some v else find k' l := by
  induction l with
  | nil => simp [put, find]
  | cons a rest ih =>
    unfold put
    split
    · simp [find]
    · rename_i eq
      obtain rfl := Std.LawfulEqCmp.eq_of_compare eq
      by_cases e : k' = a.1 <;> simp [find, e]
    · rename_i gt
      have ne : k ≠ a.1 := fun e => by rw [e] at gt; simp at gt
      simp only [find, ih, Std.compare_eq_iff_eq]
      by_cases e : k' = a.1
      · simp [e, Ne.symm ne]
      · simp [e]

@[simp] theorem get?_insert [Std.TransOrd κ] (t : Table κ ν) (k k' : κ) (v : ν) :
    (t.insert k v).get? k' = if k' = k then some v else t.get? k' := find_put k k' v t.entries

theorem find_filter_ne (k k' : κ) (l : List (κ × ν)) :
    find k' (l.filter fun e => compare k e.1 != .eq) = if k' = k then none else find k' l := by
  induction l with
  | nil => simp [find]
  | cons a rest ih =>
    by_cases e : k = a.1
    · by_cases e' : k' = k
      · simp_all
      · have : k' ≠ a.1 := e ▸ e'
        simp_all [find]
    · by_cases e' : k' = k <;> simp_all [find]

@[simp] theorem get?_erase (t : Table κ ν) (k k' : κ) :
    (t.erase k).get? k' = if k' = k then none else t.get? k' := find_filter_ne k k' t.entries

end Lookup

end Table

end Proctor
