import Mathlib.Data.List.Basic
import Proctor.Proofs.Table
import Proctor.Proofs.Text.Integer
import Proctor.Store.Tables

/-!
# The pages of a listing

A listing selects the sessions that are wanted, in an order of its own (`Ranks`), and cuts them into pages. The place where a page
begins stops at the greatest signed 64-bit number, but so does the number of sessions: a page that would begin beyond it is empty
in any case. So the pages are consecutive parts of what is selected, and as many as the page count are all of it: `list_pages`.
-/

set_option autoImplicit false

namespace Proctor

/-! ## Lists in parts -/

section Parts

variable {α : Type} {l : List α} {n : Nat}

/-- A place beyond the end may be cut down to one that is not before the end. -/
theorem drop_min_of_length_le {bound : Nat} (short : l.length ≤ bound) (place : Nat) : l.drop (min place bound) = l.drop place := by
  rcases Nat.le_total place bound with le | ge
  · rw [Nat.min_eq_left le]
  · rw [Nat.min_eq_right ge, List.drop_eq_nil_of_le short, List.drop_eq_nil_of_le (Nat.le_trans short ge)]

theorem extract_eq_nil_iff {start stop : Nat} (proper : start < stop) : l.extract start stop = [] ↔ l.length ≤ start := by
  rw [List.extract_eq_take_drop, List.take_eq_nil_iff, List.drop_eq_nil_iff]
  omega

/-- Consecutive parts of one size make up what they reach. -/
theorem flatMap_extract (count : Nat) : ((List.range count).flatMap fun k => l.extract (k * n) ((k + 1) * n)) = l.take (count * n) := by
  induction count with
  | zero => simp
  | succ count ih =>
    have size : (count + 1) * n - count * n = n := by
      rw [Nat.succ_mul]
      omega
    rw [List.range_succ, List.flatMap_append, ih, List.flatMap_singleton, List.extract_eq_take_drop, size, Nat.succ_mul, List.take_add]

end Parts

/-- There is a page as long as something is left for it. -/
theorem le_pageCount_iff {total perPage p : Int} (positive : 1 ≤ perPage) : p ≤ pageCount total perPage ↔ (p - 1) * perPage < total := by
  unfold pageCount
  rw [Int.le_ediv_iff_mul_le (by omega), Int.sub_mul, Int.one_mul]
  omega

namespace Tables

variable {t : Tables} {f : Filter} {s : Session}

/-! ## What is selected -/

theorem comesBefore_total (a b : Session) : comesBefore a b = true ∨ comesBefore b a = true := by
  simp only [comesBefore, Instant.lt_iff, Bool.or_eq_true, Bool.and_eq_true, Bool.not_eq_true', decide_eq_true_eq,
    decide_eq_false_iff_not]
  omega

theorem comesBefore_trans (a b c : Session) (ab : comesBefore a b = true) (bc : comesBefore b c = true) :
    comesBefore a c = true := by
  simp only [comesBefore, Instant.lt_iff, Bool.or_eq_true, Bool.and_eq_true, Bool.not_eq_true', decide_eq_true_eq,
    decide_eq_false_iff_not] at *
  omega

theorem mem_selection_iff : s ∈ t.selection f ↔ s ∈ t.sessions.values ∧ wants f s = true := by
  rw [selection, mem_sortBy, List.mem_filter]

/-- Sessions under their own ids are selected once. -/
theorem nodup_selection (own : ∀ {id s}, t.find? id = some s → s.id = id) (f : Filter) : ((t.selection f).map (·.id)).Nodup := by
  have once : (t.sessions.values.map (·.id)).Nodup := Table.nodup_map_values fun _ _ => own
  exact ((sortBy_perm _ _).map _).nodup_iff.2 (once.sublist (List.filter_sublist.map _))

/-- The sessions that the filter wants, each once. One that started later comes first, and of those that started together the one with the
greater id. -/
structure Ranks (t : Tables) (f : Filter) (m : List Session) : Prop where
  mem_iff : ∀ s, s ∈ m ↔ (∃ id, t.find? id = some s) ∧ (∀ user ∈ f.user, s.user = user) ∧ ∀ status ∈ f.status, s.status = status
  descending : m.Pairwise fun a b => b.startedAt < a.startedAt ∨ a.startedAt.nanos = b.startedAt.nanos ∧ b.id < a.id

theorem wants_iff : wants f s = true ↔ (∀ user ∈ f.user, s.user = user) ∧ ∀ status ∈ f.status, s.status = status := by
  simp only [wants, Bool.and_eq_true, Option.all_eq_true, beq_iff_eq, Option.mem_def]
  exact and_congr (forall₂_congr fun _ _ => eq_comm) (forall₂_congr fun _ _ => eq_comm)

theorem ranks_selection (own : ∀ {id s}, t.find? id = some s → s.id = id) (f : Filter) : t.Ranks f (t.selection f) where
  mem_iff s := by
    rw [mem_selection_iff, Table.mem_values, wants_iff]
    rfl
  descending := by
    have apart := List.pairwise_map.1 (nodup_selection own f)
    refine ((pairwise_sortBy comesBefore_total comesBefore_trans _).and apart).imp fun {a b} ⟨before, ne⟩ => ?_
    simp only [comesBefore, Instant.lt_iff, Bool.or_eq_true, Bool.and_eq_true, Bool.not_eq_true', decide_eq_true_eq,
      decide_eq_false_iff_not] at before ⊢
    omega

/-! ## Pages -/

/-- **A page** is a part of what is selected, wherever it begins. -/
theorem list_page {p : Int} (positive : 1 ≤ f.perPage) (few : ((t.selection f).length : Int) ≤ Text.Width.signed64.greatest)
    (first : 1 ≤ p) : t.list { f with page := p } =
      ((t.selection f).extract ((p - 1) * f.perPage).toNat (p * f.perPage).toNat, (t.selection f).length) := by
  have nonneg : 0 ≤ (p - 1) * f.perPage := Int.mul_nonneg (by omega) (by omega)
  have next : p * f.perPage = (p - 1) * f.perPage + f.perPage := by rw [Int.sub_mul, Int.one_mul, Int.sub_add_cancel]
  have place : ({ f with page := p } : Filter).offset.toNat =
      min ((p - 1) * f.perPage).toNat Text.Width.signed64.greatest.toNat := by
    simp only [Filter.offset]
    rw [Int.max_eq_left (by omega : 0 ≤ p - 1), Int.max_eq_left (by omega : 0 ≤ f.perPage)]
    omega
  have size : (p * f.perPage).toNat - ((p - 1) * f.perPage).toNat = f.perPage.toNat := by omega
  have short : (t.selection f).length ≤ Text.Width.signed64.greatest.toNat := by omega
  rw [List.extract_eq_take_drop, size, ← drop_min_of_length_le short, ← place]
  rfl

theorem list_page_eq_nil_iff {p : Int} (positive : 1 ≤ f.perPage)
    (few : ((t.selection f).length : Int) ≤ Text.Width.signed64.greatest) (first : 1 ≤ p) :
    (t.list { f with page := p }).1 = [] ↔ pageCount (t.selection f).length f.perPage < p := by
  have nonneg : 0 ≤ (p - 1) * f.perPage := Int.mul_nonneg (by omega) (by omega)
  have next : p * f.perPage = (p - 1) * f.perPage + f.perPage := by rw [Int.sub_mul, Int.one_mul, Int.sub_add_cancel]
  rw [list_page positive few first, extract_eq_nil_iff (by omega), ← Int.not_le, le_pageCount_iff positive]
  omega

/-- **All pages** in order are what is selected. -/
theorem flatMap_list (positive : 1 ≤ f.perPage) (few : ((t.selection f).length : Int) ≤ Text.Width.signed64.greatest) :
    ((List.range (pageCount (t.selection f).length f.perPage).toNat).flatMap fun k : Nat =>
      (t.list { f with page := k + 1 }).1) = t.selection f := by
  have part (k : Nat) : (t.list { f with page := k + 1 }).1 =
      (t.selection f).extract (k * f.perPage.toNat) ((k + 1) * f.perPage.toNat) := by
    have place (k : Nat) : ((k : Int) * f.perPage).toNat = k * f.perPage.toNat := Int.toNat_mul (by omega) (by omega)
    rw [list_page positive few (by omega), Int.add_sub_cancel, place, ← place (k + 1)]
    rfl
  have counted : 0 ≤ pageCount (t.selection f).length f.perPage := (le_pageCount_iff positive).2 (by omega)
  -- nothing is left for a page after the last one
  have enough : ((t.selection f).length : Int) ≤ pageCount (t.selection f).length f.perPage * f.perPage := by
    have last : ¬pageCount (t.selection f).length f.perPage + 1 ≤ pageCount (t.selection f).length f.perPage := by omega
    rwa [le_pageCount_iff positive, Int.add_sub_cancel, Int.not_lt] at last
  simp only [part, flatMap_extract]
  apply List.take_of_length_le
  rw [← Int.toNat_mul counted (by omega)]
  omega

/-- The page before is a signed 64-bit number. -/
theorem isSome_offset? {p : Int} (first : 1 ≤ p) (last : p ≤ Text.Width.signed64.greatest) :
    ({ f with page := p } : Filter).offset?.isSome = true := by
  have held : Text.Width.signed64.holds (p - 1) = true := by
    have least : Text.Width.signed64.least ≤ 0 := by decide
    rw [Text.Width.holds_iff]
    omega
  rw [Filter.offset?, if_pos held]
  rfl

/-- **A listing is cut into pages.** While the total is a signed 64-bit number, each page holds the sessions at its places of the ranking,
computed without a bound, and the total is their number. So the pages up to the page count make up the ranking, in which no session is missing or
repeated; none of them is empty, and all later ones are. -/
theorem list_pages (own : ∀ {id s}, t.find? id = some s → s.id = id) (positive : 1 ≤ f.perPage)
    (few : ((t.list f).2 : Int) ≤ Text.Width.signed64.greatest) :
    ∃ m, t.Ranks f m ∧ (m.map (·.id)).Nodup ∧
      (∀ p, 1 ≤ p → p ≤ Text.Width.signed64.greatest → ({ f with page := p } : Filter).offset?.isSome = true ∧
        t.list { f with page := p } = (m.extract ((p - 1) * f.perPage).toNat (p * f.perPage).toNat, m.length)) ∧
      ((List.range (pageCount m.length f.perPage).toNat).flatMap fun k : Nat => (t.list { f with page := k + 1 }).1) = m ∧
      (∀ p, 1 ≤ p → p ≤ pageCount m.length f.perPage → (t.list { f with page := p }).1 ≠ []) ∧
      ∀ p, pageCount m.length f.perPage < p → p ≤ Text.Width.signed64.greatest → (t.list { f with page := p }).1 = [] := by
  have few : ((t.selection f).length : Int) ≤ Text.Width.signed64.greatest := few
  have counted : 0 ≤ pageCount (t.selection f).length f.perPage := (le_pageCount_iff positive).2 (by omega)
  refine ⟨t.selection f, ranks_selection own f, nodup_selection own f, ?page, flatMap_list positive few, ?some, ?none⟩
  case page =>
    intro p first last
    exact ⟨isSome_offset? first last, list_page positive few first⟩
  case some =>
    intro p first reached empty
    have beyond := (list_page_eq_nil_iff positive few first).1 empty
    omega
  case none =>
    intro p beyond last
    exact (list_page_eq_nil_iff positive few (by omega)).2 beyond

namespace Sample

def started (id second : Int) : Session :=
  ⟨⟨"", ⟨⟨1, by decide⟩⟩, ⟨1, 1, none⟩, ⟨second, false⟩, 1, Instant.deadline ⟨second, false⟩ 1⟩, id, .ongoing, none, 1, none, none⟩

/-- Three sessions, the last two of which started together. -/
def three : Tables := { empty with sessions := .ofList [(1, started 1 0), (2, started 2 5), (3, started 3 5)] }

end Sample

/-- In pages of two there are two pages, and none on the page whose place is cut down to the greatest number. -/
theorem list_pages_of_three :
    let t := Sample.three
    let f : Filter := ⟨none, none, 1, 2⟩
    ∃ m, t.Ranks f m ∧ m.map (·.id) = [3, 2, 1] ∧ (t.list { f with page := 1 }).1 = m.take 2 ∧
      (t.list { f with page := 2 }).1 = m.drop 2 ∧ (t.list { f with page := Text.Width.signed64.greatest }).1 = [] := by
  intro t f
  have ids : ∀ e ∈ t.sessions.entries, e.2.id = e.1 := by decide
  have own {id : Int} {s : Session} (stored : t.find? id = some s) : s.id = id := ids _ (Table.get?_eq_some.1 stored)
  have total : (t.list f).2 = 3 := by decide
  obtain ⟨m, ranks, -, pages, all, -, none⟩ := list_pages own (f := f) (by decide) (by rw [total]; decide)
  have length : m.length = 3 := (congrArg Prod.snd (pages 1 (by decide) (by decide)).2).symm.trans total
  rw [length] at all none
  have first := congrArg Prod.fst (pages 1 (by decide) (by decide)).2
  have second := congrArg Prod.fst (pages 2 (by decide) (by decide)).2
  rw [List.extract_eq_take_drop] at first second
  have ends : m.drop 2 = (m.drop 2).take 2 := by rw [List.take_of_length_le]; simp [length]
  refine ⟨m, ranks, ?_, first, second.trans ends.symm, none _ (by decide) (by decide)⟩
  rw [← all]
  decide

end Tables

end Proctor
