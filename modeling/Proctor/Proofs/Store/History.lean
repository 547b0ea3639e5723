import Proctor.Proofs.Store.Evolution
import Proctor.Proofs.Store.Quiet

/-!
# The history of the tables

A `Deed` is one access with the world that it met. `Recorded log t` says that the deeds of `log`,
the latest first, made `t` out of empty tables, each a step that may follow on the one before.
What such a log tells of the past still binds the tables: an answer that was stored is there
until a later deed wrote to its slot (`Recorded.answer`), and a session is removed only once
(`Recorded.eq_of_removes`).
-/

set_option autoImplicit false

namespace Proctor

namespace Tables

/-- The tables `u` can follow on `t`, and slots that are still there are the same. -/
structure Follows (t u : Tables) : Prop where
  evolves : t.Evolves u
  slot : ∀ {k slot}, k ≤ t.lastSlot → u.slots.get? k = some slot → t.slots.get? k = some slot
  valid : u.Valid

variable {t u v : Tables}

namespace Follows

theorem refl (valid : t.Valid) : t.Follows t := ⟨.refl t, fun _ held => held, valid⟩

theorem trans (valid : t.Valid) (tu : t.Follows u) (uv : u.Follows v) : t.Follows v where
  evolves := tu.evolves.trans valid.consistent uv.evolves
  slot := fun le held => tu.slot le (uv.slot (Int.le_trans le tu.evolves.lastSlot_le) held)
  valid := uv.valid

/-- Every change is a step to tables that can follow. -/
theorem of_change (valid : t.Valid) (c : Change t u) : t.Follows u where
  evolves := .of_change valid.consistent c
  slot := by
    intro k slot le held
    cases c with
    | same => exact held
    | opened =>
      rcases valid.consistent.get?_slots_opened.1 held with ⟨listed, rfl⟩ | held
      · have := (bounds_of_mem_slotsFor listed).2.1
        omega
      · exact held
    | ended => exact held
    | removed => exact (get?_slots_removed.1 held).1
    | answered => exact held
  valid := valid.change c

end Follows

end Tables

namespace World

variable {w u v : World}

/-- The world `u` can follow on `w`, whoever does what in between. -/
structure Follows (w u : World) : Prop where
  follows : w.tables.Follows u.tables
  catalog : u.catalog = w.catalog

theorem Follows.refl (valid : w.tables.Valid) : w.Follows w := ⟨.refl valid, rfl⟩

theorem Follows.trans (valid : w.tables.Valid) (wu : w.Follows u) (uv : u.Follows v) : w.Follows v :=
  ⟨wu.follows.trans valid uv.follows, uv.catalog.trans wu.catalog⟩

/-- No access changes the catalog. -/
theorem catalog_handle (w : World) (q : Access) : (w.handle q).2.catalog = w.catalog := by
  cases q with
  | question id =>
    simp only [handle]
    split <;> rfl
  | _ => rfl

/-- A fair access leaves a world that can follow. -/
theorem follows_handle {q : Access} (valid : w.tables.Valid) (fair : q.Fair w.tables) : w.Follows (w.handle q).2 :=
  ⟨.of_change valid (Tables.change_handle fair), w.catalog_handle q⟩

end World

/-- One access of a caller, with the world that it met. -/
structure Deed where
  caller : Nat
  before : World
  access : Access

namespace Deed

def outcome (d : Deed) : Except Error d.access.Answer := (d.before.handle d.access).1

def after (d : Deed) : World := (d.before.handle d.access).2

/-- The deed gave the slot another answer or took its answer away, which the session took at that instant. -/
def Writes (d : Deed) (k : Int) : Prop :=
  match d.access with
  | .record a => a.slot = k ∧ d.before.tables.takesAnswer k a.answeredAt = true
  | .clear slot now => slot = k ∧ d.before.tables.takesAnswer k now = true ∧ d.before.tables.answers.contains k = true
  | _ => False

/-- The deed removed the session. -/
def Removes (d : Deed) (id : Int) : Prop :=
  d.access = .deleteOngoing id ∧ (d.before.tables.deleteOngoing id).1 = true

variable {d : Deed} {k id : Int} {slot : Slot}

/-- A slot to which a deed did not write has the answer that it had. -/
theorem get?_answers_of_not_writes (unwritten : ¬d.Writes k) (held : d.after.tables.slots.get? k = some slot) :
    d.after.tables.answers.get? k = d.before.tables.answers.get? k := by
  obtain ⟨caller, w, q⟩ := d
  by_cases quiet : q.Quiet
  · exact (Tables.quiet_handle quiet w).answer held
  cases q with
  | create terms drawn =>
    obtain ⟨_, h⟩ | ⟨-, h⟩ := w.tables.create_cases terms drawn
    all_goals simp only [after, World.handle, h]
    rfl
  | record a =>
    obtain h | ⟨takes, h⟩ := w.tables.record_cases a
    all_goals simp only [after, World.handle, h]
    rw [Table.get?_insert, if_neg]
    rintro rfl
    exact unwritten ⟨rfl, takes⟩
  | clear j now =>
    obtain h | ⟨-, h⟩ | ⟨takes, h⟩ := w.tables.clear_cases j now
    all_goals simp only [after, World.handle, h]
    rw [Table.get?_erase]
    split
    · rename_i here
      subst here
      -- an answer that is not there is not taken away
      cases given : w.tables.answers.get? k with
      | none => rfl
      | some a => exact absurd ⟨rfl, takes, by simp [Table.contains, given]⟩ unwritten
    · rfl
  | _ => exact absurd trivial quiet

theorem get?_answers_of_record {a : Answer} (access : d.access = .record a)
    (taken : d.before.tables.takesAnswer a.slot a.answeredAt = true) : d.after.tables.answers.get? a.slot = some a := by
  obtain ⟨caller, w, q⟩ := d
  obtain rfl : q = .record a := access
  have taken : w.tables.takesAnswer a.slot a.answeredAt = true := taken
  simp only [after, World.handle, Tables.record, taken, if_true, Table.get?_insert]

/-- A session that is removed was ongoing, and is gone then. -/
theorem Removes.cases (h : d.Removes id) :
    ∃ s, d.before.tables.find? id = some s ∧ s.status = .ongoing ∧ d.after.tables = d.before.tables.removed id s := by
  obtain ⟨caller, w, q⟩ := d
  obtain ⟨rfl, removed⟩ := h
  obtain ⟨-, eq⟩ | ⟨s, stored, ongoing, eq⟩ := w.tables.deleteOngoing_cases id
  · rw [eq] at removed
    cases removed
  · refine ⟨s, stored, ongoing, ?_⟩
    simp only [after, World.handle, eq]

theorem Removes.find?_after (h : d.Removes id) : d.after.tables.find? id = none := by
  obtain ⟨s, -, -, removed⟩ := h.cases
  rw [removed, Tables.find?_removed, if_pos rfl]

/-- What was there before a deed and is gone afterwards was removed by it. -/
theorem removes_of_gone {s : Session} (stored : d.before.tables.find? id = some s) (gone : d.after.tables.find? id = none) :
    d.Removes id := by
  obtain ⟨caller, w, q⟩ := d
  have stored : w.tables.find? id = some s := stored
  have gone : (w.handle q).2.tables.find? id = none := gone
  by_cases reads : q.Reads
  · cases stored.symm.trans (World.tables_handle_of_reads reads w ▸ gone)
  cases q with
  | create terms drawn =>
    obtain ⟨_, h⟩ | ⟨-, h⟩ := w.tables.create_cases terms drawn <;> simp only [World.handle, h] at gone
    · cases stored.symm.trans gone
    · exact absurd gone (Tables.find?_opened_ne_none stored)
  | markTimedOut other now =>
    obtain ⟨-, h⟩ | ⟨_, -, -, h⟩ | ⟨_, -, -, h⟩ := w.tables.markTimedOut_cases other now <;>
      simp only [World.handle, h] at gone
    · cases stored.symm.trans gone
    · cases stored.symm.trans gone
    · exact absurd gone (Tables.find?_ended_ne_none stored)
  | complete other now =>
    obtain ⟨-, h⟩ | ⟨_, -, -, h⟩ := w.tables.complete_cases other now <;> simp only [World.handle, h] at gone
    · cases stored.symm.trans gone
    · exact absurd gone (Tables.find?_ended_ne_none stored)
  | deleteOngoing other =>
    obtain ⟨-, h⟩ | ⟨_, -, -, h⟩ := w.tables.deleteOngoing_cases other <;> simp only [World.handle, h] at gone
    · cases stored.symm.trans gone
    · by_cases same : id = other
      · subst same
        exact ⟨rfl, congrArg Prod.fst h⟩
      · rw [Tables.find?_removed, if_neg same] at gone
        cases stored.symm.trans gone
  | record a =>
    obtain h | ⟨-, h⟩ := w.tables.record_cases a <;> simp only [World.handle, h] at gone <;>
      cases stored.symm.trans gone
  | clear k now =>
    obtain h | ⟨-, h⟩ | ⟨-, h⟩ := w.tables.clear_cases k now <;> simp only [World.handle, h] at gone <;>
      cases stored.symm.trans gone
  | _ => exact absurd trivial reads

end Deed

/-- The deeds, the latest first, made the tables out of empty ones. -/
inductive Recorded : List Deed → Tables → Prop where
  | nil : Recorded [] ∅
  | cons {d : Deed} {older : List Deed} (follows : d.before.tables.Follows d.after.tables)
      (before : Recorded older d.before.tables) : Recorded (d :: older) d.after.tables

namespace Recorded

variable {log newer older : List Deed} {t : Tables} {d e : Deed} {id : Int}

theorem valid (h : Recorded log t) : t.Valid := by
  cases h with
  | nil => exact Tables.valid_empty
  | cons follows => exact follows.valid

/-- The history up to a deed. -/
theorem upTo (h : Recorded (newer ++ d :: older) t) : Recorded (d :: older) d.after.tables := by
  induction newer generalizing t with
  | nil =>
    cases h with
    | cons follows before => exact .cons follows before
  | cons e newer ih =>
    cases h with
    | cons _ before => exact ih before

theorem step (h : Recorded (d :: older) t) : d.before.tables.Follows d.after.tables ∧ Recorded older d.before.tables := by
  cases h with
  | cons follows before => exact ⟨follows, before⟩

/-- What a deed left behind is followed by what came later. -/
theorem follows (h : Recorded (newer ++ d :: older) t) : d.after.tables.Follows t := by
  have valid := h.upTo.valid
  induction newer generalizing t with
  | nil =>
    cases h with
    | cons => exact .refl valid
  | cons e newer ih =>
    cases h with
    | cons follows before => exact (ih before).trans valid follows

/-- **An answer stays until its slot is written again**: if the slot of an answer that was stored is still
there, it has this answer, or a later deed wrote to it. -/
theorem answer {a : Answer} {slot : Slot} (h : Recorded (newer ++ d :: older) t) (access : d.access = .record a)
    (taken : d.before.tables.takesAnswer a.slot a.answeredAt = true) (held : t.slots.get? a.slot = some slot) :
    t.answers.get? a.slot = some a ∨ ∃ e ∈ newer, e.Writes a.slot := by
  obtain ⟨marked, _, at_slot, _⟩ := Tables.takesAnswer_iff.1 taken
  have known := h.upTo.step.2.valid.consistent.slot_le at_slot
  induction newer generalizing t with
  | nil =>
    cases h with
    | cons =>
      exact .inl (Deed.get?_answers_of_record access taken)
  | cons e newer ih =>
    cases h with
    | cons follows before =>
      by_cases written : e.Writes a.slot
      · exact .inr ⟨e, List.mem_cons_self, written⟩
      have le := Int.le_trans before.upTo.step.1.evolves.lastSlot_le before.follows.evolves.lastSlot_le
      have held' := follows.slot (Int.le_trans known le) held
      rw [Deed.get?_answers_of_not_writes written held]
      obtain same | ⟨e', listed, written'⟩ := ih before held'
      · exact .inl same
      · exact .inr ⟨e', List.mem_cons_of_mem e listed, written'⟩

/-- A session that was removed is gone for good. -/
theorem find?_of_removes (h : Recorded (newer ++ d :: older) t) (removes : d.Removes id) : t.find? id = none := by
  obtain ⟨s, stored, -, -⟩ := removes.cases
  obtain ⟨step, before⟩ := h.upTo.step
  have le := Int.le_trans (before.valid.consistent.session_le stored) step.evolves.lastSession_le
  exact h.follows.evolves.gone le removes.find?_after

/-- A session that was there after a deed and is gone now was removed by a later deed. -/
theorem exists_removes {s : Session} (h : Recorded (newer ++ d :: older) t) (stored : d.after.tables.find? id = some s)
    (gone : t.find? id = none) : ∃ e ∈ newer, e.Removes id := by
  induction newer generalizing t with
  | nil =>
    cases h with
    | cons => cases stored.symm.trans gone
  | cons e newer ih =>
    cases h with
    | cons follows before =>
      cases there : e.before.tables.find? id with
      | some r => exact ⟨e, List.mem_cons_self, Deed.removes_of_gone there gone⟩
      | none =>
        obtain ⟨e', listed, removes⟩ := ih before there
        exact ⟨e', List.mem_cons_of_mem e listed, removes⟩

/-- **A session is removed once at most.** -/
theorem eq_of_removes (h : Recorded log t) (removes : d.Removes id) (removes' : e.Removes id) (listed : d ∈ log)
    (listed' : e ∈ log) : d = e := by
  -- whichever came later would have had to find the session
  have once : ∀ {newer older d e}, Recorded (newer ++ d :: older) t → d.Removes id → e.Removes id → e ∉ newer := by
    intro newer older d e h removes removes' listed
    obtain ⟨newest, between, rfl⟩ := List.append_of_mem listed
    rw [List.append_assoc, List.cons_append] at h
    obtain ⟨s, stored, -⟩ := removes'.cases
    cases (h.upTo.step.2.find?_of_removes removes).symm.trans stored
  obtain ⟨newer, older, rfl⟩ := List.append_of_mem listed
  rcases List.mem_append.1 listed' with later | later
  · exact absurd later (once h removes removes')
  rcases List.mem_cons.1 later with rfl | earlier
  · rfl
  · obtain ⟨between, oldest, rfl⟩ := List.append_of_mem earlier
    rw [← List.cons_append, ← List.append_assoc] at h
    exact absurd (by simp) (once h removes' removes)

end Recorded

end Proctor
