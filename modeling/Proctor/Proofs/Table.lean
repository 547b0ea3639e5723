import Proctor.Table
import Mathlib.Data.List.Nodup

/-!
# Tables as lists

The keys of a table are distinct, and so are values that tell their keys. A table whose values are changed one by one
(`Table.map`) keeps its keys, so its values are the images of those before, in the same order.
-/

set_option autoImplicit false

namespace Proctor.Table

variable {κ ν : Type} [Ord κ]

theorem nodup_keys [Std.ReflOrd κ] (t : Table κ ν) : t.keys.Nodup := by
  refine List.pairwise_map.2 (t.sorted.imp fun {a b} lt eq => ?_)
  have same : compare a.1 b.1 = .eq := eq ▸ Std.ReflCmp.compare_self
  cases lt.symm.trans same

theorem eq_empty_of_entries {t : Table κ ν} (none : t.entries = []) : t = ∅ := by
  obtain ⟨entries, sorted⟩ := t
  cases none
  rfl

/-- Values that tell the keys that they stand under are distinct. -/
theorem nodup_map_values [Std.LawfulEqOrd κ] {t : Table κ ν} {key : ν → κ} (filed : ∀ k v, t.get? k = some v → key v = k) :
    (t.values.map key).Nodup := by
  have keys : t.values.map key = t.keys := by
    simp only [values, Table.keys, List.map_map]
    exact List.map_congr_left fun e listed => filed e.1 e.2 (get?_eq_some.2 listed)
  rw [keys]
  exact t.nodup_keys

/-- A new key is one entry more. -/
theorem size_insert [Std.TransOrd κ] {t : Table κ ν} {k : κ} (new : t.get? k = none) (v : ν) :
    (t.insert k v).size = t.size + 1 := by
  have length {l : List (κ × ν)} (new : find k l = none) : (put k v l).length = l.length + 1 := by
    induction l with
    | nil => rfl
    | cons e rest ih =>
      unfold find at new
      unfold put
      split at new
      · cases new
      · split
        · rfl
        · contradiction
        · rw [List.length_cons, ih new, List.length_cons]
  exact length new

/-- The table of pairs whose keys are distinct holds just these. -/
theorem get?_ofList [Std.TransOrd κ] [Std.LawfulEqOrd κ] [DecidableEq κ] {l : List (κ × ν)} (distinct : (l.map (·.1)).Nodup)
    {k : κ} {v : ν} : (ofList l).get? k = some v ↔ (k, v) ∈ l := by
  have after {l : List (κ × ν)} (distinct : (l.map (·.1)).Nodup) (t : Table κ ν) :
      (l.foldl (fun t e => t.insert e.1 e.2) t).get? k = some v ↔ (k, v) ∈ l ∨ k ∉ l.map (·.1) ∧ t.get? k = some v := by
    induction l generalizing t with
    | nil => simp
    | cons e rest ih =>
      obtain ⟨a, b⟩ := e
      obtain ⟨fresh, distinct⟩ := List.nodup_cons.1 distinct
      rw [List.foldl_cons, ih distinct, get?_insert]
      by_cases eq : k = a
      · subst eq
        have notAgain : k ∉ rest.map (·.1) := fresh
        have later : (k, v) ∉ rest := fun listed => notAgain (List.mem_map.2 ⟨_, listed, rfl⟩)
        simp only [later, notAgain, List.mem_cons, List.map_cons]
        simp [eq_comm]
      · simp [eq]
  simpa [ofList] using after distinct ∅

/-- What a table made of a list holds is on the list. -/
theorem mem_of_mem_ofList [Std.TransOrd κ] {l : List (κ × ν)} {e : κ × ν} (held : e ∈ (ofList l).entries) : e ∈ l := by
  have after {l : List (κ × ν)} {t : Table κ ν} (held : e ∈ (l.foldl (fun t e => t.insert e.1 e.2) t).entries) :
      e ∈ l ∨ e ∈ t.entries := by
    induction l generalizing t with
    | nil => exact .inr held
    | cons first rest ih =>
      obtain listed | held := ih held
      · exact .inl (List.mem_cons_of_mem first listed)
      · obtain rfl | held := mem_put held
        · exact .inl List.mem_cons_self
        · exact .inr held
  exact (after held).resolve_right List.not_mem_nil

/-- A table is made of its entries. -/
theorem ofList_entries [Std.TransOrd κ] [Std.LawfulEqOrd κ] [DecidableEq κ] (t : Table κ ν) : ofList t.entries = t := by
  apply ext_get?
  intro k
  apply Option.ext
  intro v
  rw [get?_ofList t.nodup_keys, get?_eq_some]

section Assign

variable [Std.TransOrd κ] [Std.LawfulEqOrd κ] [DecidableEq κ]

/-- Stores `v?` under `k`, or nothing. -/
def assign (t : Table κ ν) (k : κ) (v? : Option ν) : Table κ ν := v?.elim (t.erase k) (t.insert k)

variable {t : Table κ ν} {j k : κ}

@[simp] theorem get?_assign (t : Table κ ν) (k j : κ) (v? : Option ν) : (t.assign k v?).get? j = if j = k then v? else t.get? j := by
  cases v? with
  | none => exact get?_erase t k j
  | some v => exact get?_insert t k j v

/-- What is assigned first is gone. -/
theorem assign_assign (t : Table κ ν) (k : κ) (v? v?' : Option ν) : (t.assign k v?).assign k v?' = t.assign k v?' := by
  apply ext_get?
  intro i
  by_cases here : i = k <;> simp [here]

theorem assign_comm (ne : j ≠ k) (v? v?' : Option ν) : (t.assign k v?).assign j v?' = (t.assign j v?').assign k v? := by
  apply ext_get?
  intro i
  by_cases here : i = k
  · simp [here, ne.symm]
  · by_cases there : i = j <;> simp [here, there, ne]

theorem assign_of_get? {v? : Option ν} (h : t.get? k = v?) : t.assign k v? = t := by
  apply ext_get?
  intro i
  by_cases here : i = k <;> simp [here, h]

end Assign

/-- Replaces every value by its image. -/
def map (f : ν → ν) (t : Table κ ν) : Table κ ν :=
  ⟨t.entries.map fun e => (e.1, f e.2), List.pairwise_map.2 t.sorted⟩

@[simp] theorem values_map (f : ν → ν) (t : Table κ ν) : (t.map f).values = t.values.map f := by
  simp [values, map]

@[simp] theorem get?_map (f : ν → ν) (t : Table κ ν) (k : κ) : (t.map f).get? k = (t.get? k).map f := by
  show find k (t.entries.map fun e => (e.1, f e.2)) = (find k t.entries).map f
  induction t.entries with
  | nil => rfl
  | cons e rest ih =>
    simp only [List.map_cons, find]
    split
    · rfl
    · exact ih

end Proctor.Table
