import Proctor.Proofs.Exam.Isolation
import Proctor.Proofs.Hall.Basic

/-!
# Sessions do not see each other

Whatever else goes on in two halls, an operation on a session that both hold alike gives the same in
both, leaves the session alike, and touches nothing that belongs to another session
(`isolated_perform`).
-/

set_option autoImplicit false

namespace Proctor.Hall

/-- In some hall, callers can come to these tables. -/
def Reaches (t : Tables) : Prop := ∃ catalog now quota events, ((start catalog now quota).play events).tables = t

theorem Reaches.consistent {t : Tables} (reached : Reaches t) : t.Consistent := by
  obtain ⟨catalog, now, quota, events, rfl⟩ := reached
  exact (sound_play catalog now quota events).valid.consistent

/-- **Sessions are isolated.** Let two worlds with tables that callers can come to have the same catalog and hold the same
session with the same slots and answers. An operation on its token, while the clock shows the same, comes
to the same in both and leaves the session with its slots and answers alike; everything
that belongs to another session is left as it was. -/
theorem isolated_perform {v w : World} (reached : Reaches v.tables) (reached' : Reaches w.tables) (catalog : v.catalog = w.catalog)
    {o : Exam.Operation} {token : String} (addressed : o.token? = some token) {s : Session}
    (found : v.tables.findByToken? token = some s) (found' : w.tables.findByToken? token = some s)
    (slots : v.tables.slotsOf s.id = w.tables.slotsOf s.id) (answers : v.tables.answersOf s.id = w.tables.answersOf s.id)
    (clock : Nat → Instant) :
    let t := (v.perform o clock).2.tables
    let u := (w.perform o clock).2.tables
    (v.perform o clock).1 = (w.perform o clock).1 ∧ t.findByToken? token = u.findByToken? token ∧ t.find? s.id = u.find? s.id ∧
      t.slotsOf s.id = u.slotsOf s.id ∧ t.answersOf s.id = u.answersOf s.id ∧
      v.tables.Spares s.id t ∧ w.tables.Spares s.id u := by
  intro t u
  have shares : v.tables.Shares s.id w.tables := by
    have stored := (reached.consistent.findByToken?_iff.1 found).1
    have stored' := (reached'.consistent.findByToken?_iff.1 found').1
    refine ⟨stored.trans stored'.symm, slots, fun listed => ?_⟩
    rw [← reached.consistent.find?_answersOf listed, answers, reached'.consistent.find?_answersOf (slots ▸ listed)]
  have twins : Ticking.Twins token s.id v.tables w.tables ⟨v, clock⟩ ⟨w, clock⟩ :=
    ⟨catalog, rfl, .refl reached.consistent found, .refl reached'.consistent found', shares⟩
  obtain ⟨same, -, -, after⟩ := Exam.Operation.isolates_call addressed ⟨v, clock⟩ ⟨w, clock⟩ twins
  exact ⟨same.eq, after.findByToken?_eq, after.shares.session, after.shares.slots, after.shares.answersOf_eq,
    after.left.spares, after.right.spares⟩

namespace Sample

/-- Another caller opens a session of its own after the first one. -/
def crowded : Hall :=
  starts.play (opens ++ .enters (.create Course.Sample.user ⟨⟨1, 1, none⟩, 30, 1⟩ ⟨"U", []⟩) rfl :: turns [1, 1, 1, 1])

end Sample

/-- It makes no difference to an answer that somebody else has opened a session too, and this session is left as it was. -/
theorem isolated_perform_of_crowded :
    let v := (Sample.starts.play Sample.opens).world
    let w := Sample.crowded.world
    let o : Exam.Operation := .submit "T" 1 (.string "B")
    v.tables.find? 2 = none ∧ w.tables.find? 2 ≠ none ∧
      (v.perform o fun _ => ⟨1, false⟩).1 = (w.perform o fun _ => ⟨1, false⟩).1 ∧
      (w.perform o fun _ => ⟨1, false⟩).2.tables.find? 2 = w.tables.find? 2 := by
  intro v w o
  have found : v.tables.findByToken? "T" = some (Course.Sample.session 1) := by decide +kernel
  have found' : w.tables.findByToken? "T" = some (Course.Sample.session 1) := by decide +kernel
  have slots : v.tables.slotsOf 1 = w.tables.slotsOf 1 := by decide +kernel
  have answers : v.tables.answersOf 1 = w.tables.answersOf 1 := by decide +kernel
  obtain ⟨same, -, -, -, -, -, spares⟩ := isolated_perform (v := v) (w := w) (o := o) ⟨_, _, _, _, rfl⟩ ⟨_, _, _, _, rfl⟩ rfl rfl
    found found' slots answers fun _ => ⟨1, false⟩
  exact ⟨by decide +kernel, by decide +kernel, same, spares.session (by decide)⟩

end Proctor.Hall
