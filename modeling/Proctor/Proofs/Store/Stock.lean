import Proctor.Proofs.Store.Orderly
import Proctor.Proofs.Store.Origin

/-!
# Slots and their questions

A slot is tagged with the kind of a question that the catalog had when its session was opened. As long as the catalog
does not change, or questions of the same kind take the places of others (`Stocked.insert`), the slot has a question of its kind. `Stocks`
says what an access may do to this: any slot that it makes is one for a question of the catalog. This does not depend on the clock.
-/

set_option autoImplicit false

namespace Proctor

theorem Access.Quiet.newToken?_eq_none {q : Access} (quiet : q.Quiet) : q.newToken? = none := by
  cases q with
  | create | record | clear => cases quiet
  | _ => rfl

/-- The question does not take the place of one of the other kind. -/
def Catalog.keepsKind (c : Catalog) (q : Question) : Bool := (c.get? q.id).all (·.kind == q.kind)

namespace World

/-- The world with one more question in its catalog, or with this one in place of another. -/
def insert (w : World) (q : Question) : World := { w with catalog := w.catalog.insert q }

@[simp] theorem catalog_insert (w : World) (q : Question) : (w.insert q).catalog = w.catalog.insert q := rfl

/-- Every slot has a question in the catalog, of the kind that it is tagged with, and the catalog finds each question by its
own id. -/
structure Stocked (w : World) : Prop where
  keyed : w.catalog.Keyed
  offered : ∀ {k slot}, w.tables.slots.get? k = some slot → w.catalog.Offers slot.question slot.kind

/-- With the same catalog, the slots of `u` were there in `w` or are for questions of the catalog. -/
structure Stocks (w u : World) : Prop where
  catalog : u.catalog = w.catalog
  slot : w.catalog.Keyed → ∀ {k slot}, u.tables.slots.get? k = some slot →
    w.tables.slots.get? k = some slot ∨ w.catalog.Offers slot.question slot.kind

variable {w u v : World}

theorem Stocks.of_slots (catalog : u.catalog = w.catalog)
    (slot : ∀ {k slot}, u.tables.slots.get? k = some slot → w.tables.slots.get? k = some slot) : w.Stocks u :=
  ⟨catalog, fun _ _ _ held => .inl (slot held)⟩

theorem Stocks.trans (wu : w.Stocks u) (uv : u.Stocks v) : w.Stocks v where
  catalog := uv.catalog.trans wu.catalog
  slot := by
    intro keyed k slot held
    have later := uv.slot (by rwa [wu.catalog]) held
    rw [wu.catalog] at later
    exact later.elim (wu.slot keyed) .inr

theorem Stocked.of_stocks (stocked : w.Stocked) (wu : w.Stocks u) : u.Stocked where
  keyed := by
    rw [wu.catalog]
    exact stocked.keyed
  offered := by
    intro k slot held
    rw [wu.catalog]
    exact (wu.slot stocked.keyed held).elim stocked.offered id

theorem stocked_start {catalog : Catalog} (keyed : catalog.Keyed) (now : Instant) (quota : Option Quota) :
    (start catalog now quota).Stocked where
  keyed := keyed
  offered := fun held => by cases held

/-- A question in place of one of its kind serves the same slots. -/
theorem Stocked.insert (stocked : w.Stocked) {q : Question} (keeps : w.catalog.keepsKind q = true) :
    (w.insert q).Stocked where
  keyed := stocked.keyed.insert q
  offered := by
    intro k slot held
    obtain ⟨old, kept, kind⟩ := stocked.offered held
    simp only [catalog_insert, Catalog.Offers, Catalog.get?_insert]
    split
    case isTrue same =>
      rw [Catalog.keepsKind, ← same, kept, Option.all_some, beq_iff_eq] at keeps
      exact ⟨q, rfl, keeps.symm.trans kind⟩
    case isFalse => exact ⟨old, kept, kind⟩

/-- Only the opening of a session makes slots. -/
theorem stocks_handle {q : Access} (old : q.newToken? = none) (w : World) : w.Stocks (w.handle q).2 := by
  refine .of_slots (w.catalog_handle q) fun {k slot} held => ?_
  by_cases quiet : q.Quiet
  · exact (Tables.quiet_handle quiet w).slot held
  cases q with
  | create terms drawn => cases old
  | record a =>
    obtain h | ⟨-, h⟩ := w.tables.record_cases a <;> simp only [handle, h] at held <;> exact held
  | clear j now =>
    obtain h | ⟨-, h⟩ | ⟨-, h⟩ := w.tables.clear_cases j now <;> simp only [handle, h] at held <;> exact held
  | _ => exact absurd trivial quiet

/-- A session is opened with slots for the questions that were drawn. -/
theorem stocks_create {terms : Terms} {drawn : List Drawn} (w : World)
    (offered : w.catalog.Keyed → ∀ d ∈ drawn, w.catalog.Offers d.question d.kind) : w.Stocks (w.handle (.create terms drawn)).2 := by
  refine ⟨w.catalog_handle _, fun keyed k slot held => ?_⟩
  obtain ⟨_, h⟩ | ⟨-, h⟩ := w.tables.create_cases terms drawn <;> simp only [handle, h] at held
  · exact .inl held
  have distinct := (w.tables.pairwise_slotsFor (w.tables.lastSession + 1) drawn).imp Int.ne_of_lt
  obtain ⟨listed, -⟩ | ⟨held, -⟩ := (Tables.get?_foldl_insert distinct w.tables.slots).1 held
  · obtain ⟨i, d, at_i, rfl⟩ := Tables.mem_slotsFor.1 listed
    exact .inr (offered keyed d (List.mem_of_getElem? at_i))
  · exact .inl held

end World

end Proctor
