import Proctor.Proofs.Store.History

/-!
# Where rows come from

Each row of the tables goes back to something that there was before. A slot goes back to a question of
the catalog of the kind that the slot is tagged with, the start of a session to an instant that the clock
has shown, and an answer to an instant at or after the start of its session. A world in which this is so is
`Orderly`, and stays so if new rows keep to it (`Orderly.handle`).
-/

set_option autoImplicit false

namespace Proctor

namespace Catalog

/-- Every question is found by its own id. -/
def Keyed (c : Catalog) : Prop := ∀ id q, c.get? id = some q → q.id = id

/-- A question of this kind is found by this id. -/
def Offers (c : Catalog) (question : Int) (kind : Kind) : Prop := ∃ q, c.get? question = some q ∧ q.kind = kind

theorem Keyed.insert {c : Catalog} (keyed : c.Keyed) (q : Question) : (c.insert q).Keyed := by
  intro id r found
  rw [get?_insert] at found
  split at found
  · rename_i same
    cases found
    exact same.symm
  · exact keyed id r found

theorem keyed_ofList (questions : List Question) : (ofList questions).Keyed := by
  have folded : ∀ (qs : List Question) {c : Catalog}, c.Keyed → (qs.foldl Catalog.insert c).Keyed := by
    intro qs
    induction qs with
    | nil => exact fun keyed => keyed
    | cons q qs ih => exact fun keyed => ih (keyed.insert q)
  exact folded questions fun id q found => by cases found

/-- The entries of a pool are questions of the catalog. -/
theorem Keyed.offers_of_mem_pool {c : Catalog} (keyed : c.Keyed) {s : Scope} {e : PoolEntry} (listed : e ∈ c.pool s) :
    c.Offers e.question e.kind := by
  obtain ⟨q, held, rfl⟩ := List.mem_map.1 listed
  obtain ⟨id, found⟩ := Table.mem_values.1 (List.mem_filter.1 held).1
  have same : q.id = id := keyed id q found
  exact ⟨q, show c.questions.get? q.id = some q from same ▸ found, rfl⟩

end Catalog

namespace World

/-- The rows of the tables go back to the catalog and to the clock. -/
structure Orderly (w : World) : Prop where
  keyed : w.catalog.Keyed
  offered : ∀ {k slot}, w.tables.slots.get? k = some slot → w.catalog.Offers slot.question slot.kind
  started : ∀ {id s}, w.tables.find? id = some s → s.startedAt ≤ w.now
  answered : ∀ {k slot s a}, w.tables.slots.get? k = some slot → w.tables.find? slot.session = some s →
    w.tables.answers.get? k = some a → s.startedAt ≤ a.answeredAt

/-- The new rows of the access, if it makes any, go back to the catalog and to the clock. -/
def Admits (w : World) : Access → Prop
  | .create terms drawn => terms.startedAt ≤ w.now ∧ ∀ d ∈ drawn, w.catalog.Offers d.question d.kind
  | .record a => ∀ slot s, w.tables.slots.get? a.slot = some slot → w.tables.find? slot.session = some s →
      s.startedAt ≤ a.answeredAt
  | _ => True

theorem orderly_start {catalog : Catalog} (keyed : catalog.Keyed) (now : Instant) (quota : Option Quota) :
    (start catalog now quota).Orderly where
  keyed := keyed
  offered := fun held => by cases held
  started := fun stored => by cases stored
  answered := fun held => by cases held

theorem now_handle (w : World) (q : Access) : (w.handle q).2.now = w.now := by
  cases q with
  | question id =>
    simp only [handle]
    split <;> rfl
  | _ => rfl

namespace Orderly

variable {w : World}

/-- An access that neither opens a session nor writes an answer. -/
theorem of_quiet (orderly : w.Orderly) {u : World} (quiet : w.tables.Quiet u.tables) (follows : w.Follows u)
    (now_le : w.now ≤ u.now) : u.Orderly where
  keyed := by
    rw [follows.catalog]
    exact orderly.keyed
  offered := by
    intro k slot held
    rw [follows.catalog]
    exact orderly.offered (quiet.slot held)
  started := by
    intro id s stored
    obtain ⟨r, before, -⟩ := quiet.stored stored
    have terms := (follows.follows.evolves.terms before stored).1
    rw [show s.startedAt = r.startedAt from congrArg Terms.startedAt terms]
    exact Instant.le_trans (orderly.started before) now_le
  answered := by
    intro k slot s a held stored given
    obtain ⟨r, before, -⟩ := quiet.stored stored
    have terms := (follows.follows.evolves.terms before stored).1
    rw [show s.startedAt = r.startedAt from congrArg Terms.startedAt terms]
    exact orderly.answered (quiet.slot held) before (quiet.answer held ▸ given)

theorem opened (orderly : w.Orderly) (consistent : w.tables.Consistent) {terms : Terms} {drawn : List Drawn}
    (started : terms.startedAt ≤ w.now) (offered : ∀ d ∈ drawn, w.catalog.Offers d.question d.kind) :
    Orderly { w with tables := w.tables.opened terms drawn } where
  keyed := orderly.keyed
  offered := by
    intro k slot held
    obtain ⟨listed, -⟩ | held := consistent.get?_slots_opened.1 held
    · obtain ⟨i, d, at_i, rfl⟩ := Tables.mem_slotsFor.1 listed
      exact offered d (List.mem_of_getElem? at_i)
    · exact orderly.offered held
  started := by
    intro id s stored
    obtain ⟨-, rfl⟩ | ⟨-, stored⟩ := Tables.find?_opened_eq_some.1 stored
    · exact started
    · exact orderly.started stored
  answered := by
    intro k slot s a held stored given
    obtain ⟨listed, rfl⟩ | held := consistent.get?_slots_opened.1 held
    · cases (consistent.get?_answers_of_mem_slotsFor listed).symm.trans given
    obtain ⟨new, -⟩ | ⟨-, stored⟩ := Tables.find?_opened_eq_some.1 stored
    · exact absurd new (consistent.session_ne_next held)
    · exact orderly.answered held stored given

/-- An answer is written or removed. -/
theorem written (orderly : w.Orderly) {k : Int} (a? : Option Answer) {answers : Table Int Answer}
    (changed : ∀ j, answers.get? j = if j = k then a? else w.tables.answers.get? j)
    (admitted : ∀ a ∈ a?, ∀ slot s, w.tables.slots.get? k = some slot → w.tables.find? slot.session = some s →
      s.startedAt ≤ a.answeredAt) : Orderly { w with tables := { w.tables with answers := answers } } where
  keyed := orderly.keyed
  offered := orderly.offered
  started := orderly.started
  answered := by
    intro j slot s a held stored given
    have given : answers.get? j = some a := given
    rw [changed] at given
    split at given
    · rename_i here
      exact admitted a given slot s (here ▸ held) stored
    · exact orderly.answered held stored given

/-- **Orderly worlds stay orderly** if new rows go back to the catalog and to the clock. -/
theorem handle (orderly : w.Orderly) (valid : w.tables.Valid) {q : Access} (fair : q.Fair w.tables) (admits : w.Admits q) :
    (w.handle q).2.Orderly := by
  by_cases quiet : q.Quiet
  · exact orderly.of_quiet (Tables.quiet_handle quiet w) (follows_handle valid fair) (Int.le_of_eq (by rw [now_handle]))
  cases q with
  | create terms drawn =>
    obtain ⟨_, h⟩ | ⟨-, h⟩ := w.tables.create_cases terms drawn
    all_goals simp only [World.handle, h]
    · exact orderly
    · exact orderly.opened valid.consistent admits.1 admits.2
  | record a =>
    obtain h | ⟨-, h⟩ := w.tables.record_cases a
    all_goals simp only [World.handle, h]
    · exact orderly
    · refine orderly.written (some a) (fun j => Table.get?_insert _ _ _ _) ?_
      rintro _ ⟨⟩
      exact admits
  | clear k now =>
    obtain h | ⟨-, h⟩ | ⟨-, h⟩ := w.tables.clear_cases k now
    all_goals simp only [World.handle, h]
    · exact orderly
    · exact orderly
    · exact orderly.written none (fun j => Table.get?_erase _ _ _) (by simp)
  | _ => exact absurd trivial quiet

end Orderly

end World

end Proctor
