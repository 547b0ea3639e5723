import Proctor.Proofs.Course.Scoring
import Proctor.Proofs.Exam.Noticed
import Proctor.Proofs.Sorting
import Mathlib.Data.List.Count

/-!
# What a listing shows

A listing picks its sessions as they are stored, and then shows them as they stand. So a listing of the ongoing
sessions also shows sessions that it has just timed out, and one of the sessions that are timed out leaves out those that
nobody has looked at yet. `list_swept` compares a listing with one for which all sessions have been looked at first.
-/

set_option autoImplicit false

namespace Proctor

theorem countP_lt_countP {α : Type} {p q : α → Bool} {l : List α} (weaker : ∀ a ∈ l, p a = true → q a = true) {a : α}
    (listed : a ∈ l) (counted : q a = true) (missed : p a = false) : l.countP p < l.countP q := by
  have within_ : l.countP p = (l.filter q).countP p := by
    rw [List.countP_filter]
    exact List.countP_congr fun b listed => by simpa using weaker b listed
  rw [within_, List.countP_eq_length_filter (p := q)]
  exact List.countP_lt_length_iff.2 ⟨a, List.mem_filter.2 ⟨listed, counted⟩, missed⟩

/-- A listing of ongoing sessions drops a session that is past its deadline as it shows it. -/
def Filter.drops (f : Filter) (now : Instant) (s : Session) : Bool := f.status == some .ongoing && s.isExpired now

namespace Tables

variable {t : Tables} {f : Filter} {seen : Int → Bool} {now : Instant} {a b : Session} {s : Session}

/-! ## The order of a listing -/

theorem comesBefore_asSeen : comesBefore (a.asSeen seen now) (b.asSeen seen now) = comesBefore a b := by
  have start : ∀ s : Session, (s.asSeen seen now).startedAt = s.startedAt := fun s =>
    congrArg Terms.startedAt (s.toTerms_asSeen seen now)
  simp only [comesBefore, start, Session.id_asSeen]

/-! ## What is wanted -/

theorem length_selection : (t.selection f).length = t.sessions.values.countP (wants f) := by
  rw [selection, length_sortBy, List.countP_eq_length_filter]

theorem status_of_wants (wanted : wants f s = true) {status : Status} (asked : status ∈ f.status) : s.status = status := by
  obtain ⟨-, same⟩ := Bool.and_eq_true_iff.1 wanted
  rw [Option.mem_def.1 asked] at same
  exact (beq_iff_eq.1 same).symm

/-- Who is wanted as stored is wanted as it stands unless it is dropped. -/
theorem wants_asOf (wanted : wants f s = true) : wants f (s.asOf now) = !f.drops now s := by
  cases expired : s.isExpired now with
  | false => rw [Session.asOf_of_not_isExpired expired, wanted, Filter.drops, expired, Bool.and_false, Bool.not_false]
  | true =>
    rw [Session.asOf_of_isExpired expired]
    obtain ⟨user, status⟩ := Bool.and_eq_true_iff.1 wanted
    rw [(Session.isExpired_iff.1 expired).1] at status
    simp only [wants, Filter.drops, expired, Bool.and_true, Session.timedOut]
    rw [show f.user.all (· == s.user) = true from user]
    cases st : f.status with
    | none => rfl
    | some st' =>
      rw [st] at status
      obtain rfl : st' = .ongoing := by simpa using status
      rfl

/-- What is selected when sessions have been looked at. -/
theorem selection_noticed : (t.noticed seen now).selection f =
    (sortBy comesBefore (t.sessions.values.filter fun s => wants f (s.asSeen seen now))).map (·.asSeen seen now) := by
  rw [selection, noticed, Table.values_map, List.filter_map, map_sortBy fun a b => comesBefore_asSeen]
  rfl

/-- What is selected when all sessions have been looked at. -/
theorem selection_swept : (t.swept now).selection f =
    (sortBy comesBefore (t.sessions.values.filter fun s => wants f (s.asOf now))).map (·.asOf now) := selection_noticed

/-- When only sessions that are wanted have been looked at, the same are selected but for those that are dropped. -/
theorem selection_noticed_of_wanted (wanted : ∀ s ∈ t.sessions.values, seen s.id = true → wants f s = true) :
    (t.noticed seen now).selection f =
      ((t.selection f).filter fun s => !(seen s.id && f.drops now s)).map (·.asSeen seen now) := by
  rw [selection_noticed, selection, filter_sortBy comesBefore_total comesBefore_trans, List.filter_filter]
  congr 2
  refine List.filter_congr fun s held => ?_
  unfold Session.asSeen
  cases here : seen s.id with
  | false => simp
  | true => simp [wanted s held here, wants_asOf]

/-- No session that the listing may be about is past its deadline. -/
def Punctual (t : Tables) (f : Filter) (now : Instant) : Prop :=
  ∀ s ∈ t.sessions.values, f.user.all (· == s.user) = true → s.isExpired now = false

/-- A listing of the sessions in no state, or in a state that looking does not lead to or from, wants the same as they stand. -/
theorem wants_asOf_eq (plain : f.status = some .ongoing ∨ f.status = some .timeout → t.Punctual f now)
    (held : s ∈ t.sessions.values) : wants f (s.asOf now) = wants f s := by
  cases expired : s.isExpired now with
  | false => rw [Session.asOf_of_not_isExpired expired]
  | true =>
    rw [Session.asOf_of_isExpired expired]
    have ongoing := (Session.isExpired_iff.1 expired).1
    simp only [wants, Session.timedOut, ongoing]
    cases user : f.user.all (· == s.user) with
    | false => rfl
    | true =>
      have late : ¬t.Punctual f now := fun none => by simp [none s held user] at expired
      cases st : f.status with
      | none => rfl
      | some status => cases status <;> simp_all

/-- Otherwise it does not even count the same. -/
theorem countP_wants_ne (blurred : f.status = some .ongoing ∨ f.status = some .timeout) (late : ¬t.Punctual f now) :
    t.sessions.values.countP (fun s => wants f (s.asOf now)) ≠ t.sessions.values.countP (wants f) := by
  obtain ⟨s, held, user, expired⟩ : ∃ s ∈ t.sessions.values, f.user.all (· == s.user) = true ∧ s.isExpired now = true := by
    simpa [Punctual] using late
  have ongoing := (Session.isExpired_iff.1 expired).1
  rcases blurred with status | status
  · -- the session is counted as it is stored, but not as it stands
    refine Nat.ne_of_lt (countP_lt_countP (fun r _ wanted => ?_) held ?_ ?_)
    · cases late : r.isExpired now with
      | false => rwa [Session.asOf_of_not_isExpired late] at wanted
      | true => simp [wants, status, Session.status_asOf, late] at wanted
    · simp [wants, status, user, ongoing]
    · simp [wants, status, Session.status_asOf, expired]
  · -- the session is counted as it stands, but not as it is stored
    refine Nat.ne_of_gt (countP_lt_countP (fun r _ wanted => ?_) held ?_ ?_)
    · simp [wants_asOf wanted, Filter.drops, status]
    · simp [wants, status, user, Session.status_asOf, expired]
    · simp [wants, status, ongoing]

end Tables

namespace World

/-- The world after all sessions were looked at. -/
def swept (w : World) : World := { w with tables := w.tables.swept w.now }

end World

namespace Exam

open Call

variable {w : World} {f : Filter}

/-- Whoever looks at all sessions sweeps the tables. -/
theorem run_observeAll_values (filed : w.tables.Filed) :
    (observeAll w.tables.sessions.values).run World.handle w = (.ok (w.tables.sessions.values.map (·.asOf w.now)), w.swept) := by
  have once : (w.tables.sessions.values.map (·.id)).Nodup := Table.nodup_map_values fun _ _ => filed.session_id
  rw [run_observeAll_of_stored filed (fun s held => filed.find?_of_mem_values held) once, World.swept, Tables.swept]
  rw [Tables.noticed_congr filed]
  intro id s stored
  exact List.any_eq_true.2 ⟨s, Table.mem_values.2 ⟨id, stored⟩, beq_iff_eq.2 (filed.session_id stored)⟩

/-- What a listing gives when all sessions have been looked at before. -/
theorem run_list_swept (filed : w.tables.Filed) (f : Filter) :
    ((list f).run World.handle w.swept).1 =
      .ok (((w.swept.tables.selection f).drop f.offset.toNat).take f.perPage.toNat,
        w.tables.sessions.values.countP fun s => Tables.wants f (s.asOf w.now)) := by
  have filed' := filed.run (observeAll w.tables.sessions.values)
  rw [run_observeAll_values filed] at filed'
  rw [run_list filed' f]
  have swept : w.swept.tables.selection f = _ := Tables.selection_swept
  have standing : (w.swept.tables.list f).1.map (·.asOf w.now) = (w.swept.tables.list f).1 := by
    simp only [Tables.list, swept, List.map_take, List.map_drop, List.map_map, Function.comp_def, Session.asOf_asOf]
  have count : (w.swept.tables.selection f).length = w.tables.sessions.values.countP fun s => Tables.wants f (s.asOf w.now) := by
    rw [swept, List.length_map, length_sortBy, List.countP_eq_length_filter]
  rw [count, show w.swept.now = w.now from rfl, standing]
  rfl

/-- **A listing depends on who has looked before.** If all sessions have been looked at, a listing shows sessions in the
state that is asked for, and tells how many there are. Otherwise it gives the same just if it is not about the sessions that are
ongoing or timed out, or if none that it may be about is past its deadline; and else a listing of the
ongoing sessions also shows some that it has just timed out. -/
theorem list_swept (reached : w.tables.Reached) (f : Filter) :
    ∃ shown total shown' total', ((list f).run World.handle w).1 = .ok (shown, total) ∧
      ((list f).run World.handle w.swept).1 = .ok (shown', total') ∧
      ((shown, total) = (shown', total') ↔
        (f.status = some .ongoing ∨ f.status = some .timeout → w.tables.Punctual f w.now)) ∧
      (∀ s ∈ shown', ∀ status ∈ f.status, s.status = status) ∧
      total' = w.tables.sessions.values.countP (fun s => Tables.wants f (s.asOf w.now)) ∧
      ∀ s ∈ shown, ∀ status ∈ f.status,
        s.status = status ∨ status = .ongoing ∧ s.status = .timeout ∧ s.finishedAt = some w.now := by
  have filed := reached.filed
  refine ⟨_, _, _, _, by rw [run_list filed f], run_list_swept filed f, ⟨fun same => ?_, fun plain => ?_⟩, ?_, rfl, ?_⟩
  · -- if any is late, the listings differ in what they count
    intro blurred
    by_contra late
    have count := (Prod.mk.inj same).2
    rw [Tables.length_selection] at count
    exact Tables.countP_wants_ne blurred late count.symm
  · have same : w.tables.sessions.values.filter (fun s => Tables.wants f (s.asOf w.now)) =
        w.tables.sessions.values.filter (Tables.wants f) :=
      List.filter_congr fun s held => Tables.wants_asOf_eq plain held
    have swept : w.swept.tables.selection f = (w.tables.selection f).map (·.asOf w.now) := by
      rw [World.swept, Tables.selection_swept, same]
      rfl
    rw [swept, List.countP_eq_length_filter, same, Tables.length_selection, List.countP_eq_length_filter]
    simp only [Tables.list, List.map_take, List.map_drop]
  · intro s listed status asked
    have swept : w.swept.tables.selection f = _ := Tables.selection_swept
    have selected := List.mem_of_mem_drop (List.mem_of_mem_take listed)
    rw [swept] at selected
    obtain ⟨r, chosen, rfl⟩ := List.mem_map.1 selected
    exact Tables.status_of_wants (List.mem_filter.1 (mem_sortBy.1 chosen)).2 asked
  · intro s listed status asked
    obtain ⟨r, chosen, rfl⟩ := List.mem_map.1 listed
    have wanted := (Tables.mem_selection_iff.1 (List.mem_of_mem_drop (List.mem_of_mem_take chosen))).2
    have asked' := Tables.status_of_wants wanted asked
    cases expired : r.isExpired w.now with
    | false =>
      rw [Session.asOf_of_not_isExpired expired]
      exact .inl asked'
    | true =>
      rw [Session.asOf_of_isExpired expired]
      exact .inr ⟨asked'.symm.trans (Session.isExpired_iff.1 expired).1, rfl, rfl⟩

namespace Sample

/-- Opens a session of half an hour and one of a minute. -/
def opensBoth : Call Unit := do
  let _ ← create Course.Sample.user ⟨⟨1, 1, none⟩, 30, 1⟩ ⟨"T", []⟩
  let _ ← create Course.Sample.user ⟨⟨1, 1, none⟩, 1, 1⟩ ⟨"U", []⟩

def starts : World := .start Course.Sample.catalog ⟨0, false⟩ none

/-- Two minutes later the shorter one is past its deadline, and nobody has looked at it. -/
def late : World := ⟨(opensBoth.run World.handle starts).2.tables, Course.Sample.catalog, ⟨120000000000, false⟩, none⟩

theorem reached_late : late.tables.Reached := Tables.Reached.run (w := starts) .empty opensBoth

end Sample

/-- Of two sessions that are stored as ongoing one is late. A listing of the ongoing sessions counts both, and shows the
late one as timed out; after all have been looked at it shows just the other one. -/
theorem list_swept_of_late :
    let w := Sample.late
    let f : Filter := ⟨none, some .ongoing, 1, 20⟩
    let opened := Course.Sample.session 1
    let expired := { Course.Sample.session 2 with
      token := "U", minutes := 1, deadline := ⟨60000000000, false⟩, status := .timeout, finishedAt := some w.now }
    w.tables.Reached ∧ ((list f).run World.handle w).1 = .ok ([expired, opened], 2) ∧
      ((list f).run World.handle w.swept).1 = .ok ([opened], 1) ∧ ¬w.tables.Punctual f w.now := by
  intro w f opened expired
  have before : ((list f).run World.handle w).1 = .ok ([expired, opened], 2) := by decide +kernel
  have after : ((list f).run World.handle w.swept).1 = .ok ([opened], 1) := by decide +kernel
  refine ⟨Sample.reached_late, before, after, fun none => ?_⟩
  obtain ⟨shown, total, shown', total', first, second, same, -⟩ := list_swept Sample.reached_late f
  cases before.symm.trans first
  cases after.symm.trans second
  exact absurd (same.2 fun _ => none) (by decide)

/-- A listing of the ongoing sessions is not the same before and after all have been looked at. -/
theorem not_list_swept_always :
    ¬∀ (w : World) (f : Filter), w.tables.Reached → 1 ≤ f.page → 1 ≤ f.perPage →
      ((list f).run World.handle w).1 = ((list f).run World.handle w.swept).1 := by
  intro all
  exact absurd (all Sample.late ⟨none, some .ongoing, 1, 20⟩ Sample.reached_late (by decide) (by decide)) (by decide +kernel)

end Exam

end Proctor
