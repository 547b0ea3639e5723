import Proctor.Proofs.Exam.Trace
import Proctor.Proofs.Hall.Endings

/-!
# Completing a session that others complete

Several callers may complete one session at the same time, and all of them may have found it ongoing.
One completion takes effect. Whoever comes later gives the record that it meets, unless it has read the
clock past the deadline: then it sets out to time the session out, and gives what it meets as a fault
(`completed_play`). So a caller may be refused because the session is completed
(`not_completed_always`).
-/

set_option autoImplicit false

namespace Proctor.Hall

/-- What has ended has come to what its deeds tell. -/
theorem ends_play (catalog : Catalog) (now : Instant) (quota : Option Quota) (events : List Event) :
    ((start catalog now quota).play events).ComesTo fun o => o.Ends :=
  (sound_start catalog now quota).comesTo_play (fun o => o.Ends) Exam.Operation.ends_of_rests
    (fun fits first => Exam.Operation.traces_call fits first) (fun here => by cases here) events

/-- The last access of caller `i` to anything but the clock. -/
def last? (h : Hall) (i : Nat) : Option Deed := (h.view i).last?

/-- **What a completion gives when it meets a completed session** in its last access to the tables: just this record,
in whatever order the callers act and whatever the clock shows; or else an error, if the access was made to
time the session out, at an instant past the deadline. -/
theorem completed_play (catalog : Catalog) (now : Instant) (quota : Option Quota) (events : List Event) :
    let h := (start catalog now quota).play events
    ∀ {i token d s} {r : Except Error Session}, h.callers[i]? = some ⟨.complete token, .ofExcept r⟩ →
      h.subject? i = some s.id → h.last? i = some d → d.before.tables.find? s.id = some s → s.status = .completed →
        r = .ok s ∨ ∃ late, d.access = .markTimedOut s.id late ∧ s.deadline < late ∧
          r = .error (.state (.closed .completed)) := by
  intro h i token d s r told subject last stored completed
  have comes := ends_play catalog now quota events told
  cases r with
  | ok a => exact comes s.id d s subject last stored completed
  | error e => exact comes s.id d s subject last stored completed

namespace Sample

/-- Two callers find a session, and the second one completes it; then the deadline passes, and the first one reads the
clock and acts on what it has read. -/
def overtaken : List Event :=
  opens ++ [Course.Sample.completes, Course.Sample.completes].map comes ++ turns [1, 2, 2, 2] ++
    List.replicate 2 (.acts 1 ⟨1800000000001, false⟩)

/-- What the first one met. -/
theorem overtaken_last : ∃ d, (starts.play overtaken).last? 1 = some d ∧
    d.before.tables.find? 1 = some ((Course.Sample.session 1).completed [] ⟨1, false⟩) :=
  Option.bind_eq_some_iff.1 (by decide +kernel)

end Sample

/-- The first caller sets out to time out the session that is completed, and is refused. -/
theorem completed_play_of_late_reading :
    let h := Sample.starts.play Sample.overtaken
    let s := (Course.Sample.session 1).completed [] ⟨1, false⟩
    h.error? 1 = some (.state (.closed .completed)) ∧
      ∃ d late, h.last? 1 = some d ∧ d.before.tables.find? 1 = some s ∧ d.access = .markTimedOut 1 late ∧ s.deadline < late := by
  intro h s
  have told : h.callers[1]? = some ⟨.complete "T", .ofExcept (.error (.state (.closed .completed)))⟩ := rfl
  have subject : h.subject? 1 = some s.id := by decide +kernel
  obtain ⟨d, last, stored⟩ := Sample.overtaken_last
  obtain given | ⟨late, access, passed, -⟩ :=
    completed_play Course.Sample.catalog ⟨0, false⟩ none Sample.overtaken told subject last stored rfl
  · cases given
  · exact ⟨by decide +kernel, d, late, last, stored, access, passed⟩

/-- A completion that meets a completed session does not always give its record, even if the clock never goes back. -/
theorem not_completed_always : ¬∀ (catalog : Catalog) (now : Instant) (quota : Option Quota) (events : List Event),
    (now :: events.filterMap Event.instant?).Pairwise (· ≤ ·) →
      let h := (start catalog now quota).play events
      ∀ {i token d s} {r : Except Error Session}, h.callers[i]? = some ⟨.complete token, .ofExcept r⟩ →
        h.subject? i = some s.id → h.last? i = some d → d.before.tables.find? s.id = some s → s.status = .completed →
          r = .ok s := by
  intro always
  let h := Sample.starts.play Sample.overtaken
  let s := (Course.Sample.session 1).completed [] ⟨1, false⟩
  have told : h.callers[1]? = some ⟨.complete "T", .ofExcept (.error (.state (.closed .completed)))⟩ := rfl
  have subject : h.subject? 1 = some s.id := by decide +kernel
  obtain ⟨d, last, stored⟩ := Sample.overtaken_last
  cases always Course.Sample.catalog ⟨0, false⟩ none Sample.overtaken (by decide) told subject last stored rfl

end Proctor.Hall
