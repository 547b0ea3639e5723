import Proctor.Proofs.Hall.Completion
import Proctor.Proofs.Hall.Steady

/-!
# Callers that come close to the deadline

No access to the tables looks at the clock. Whoever wants to write reads the clock first, in an access of
its own, and goes by what it showed; the write itself may come later, also when the deadline has passed
(`not_removed_in_time`). But what its caller read just before was not past the deadline, be it that a session
is removed or completed or that it takes an answer (`in_time_play`).
-/

set_option autoImplicit false

namespace Proctor

/-- Only by a token a caller finds its session. -/
theorem Deed.access_of_found? {d : Deed} {id : Int} (found : d.found? = some id) : ∃ token, d.access = .findByToken token := by
  unfold found? at found
  split at found
  · exact ⟨_, by assumption⟩
  · cases found

namespace Hall

variable {h : Hall} {newer older : List Deed} {d : Deed}

namespace Steady

/-- A session that is removed was ongoing, and the caller who cancelled it had just read an instant that was not past
the deadline. -/
theorem read_of_removes (steady : h.Steady) (log : h.log = newer ++ d :: older) {id : Int} (removes : d.Removes id) :
    ∃ token s t, h.operations[d.caller]? = some (.cancel token) ∧ d.before.tables.find? id = some s ∧ s.token = token ∧
      s.status = .ongoing ∧ (d.view older).Read t ∧ t ≤ s.deadline := by
  obtain ⟨o, own, prompt⟩ := steady.prompt log
  obtain ⟨token, s, t, rfl, known, named, rfl, read, inTime⟩ := prompt.removes id removes.1
  obtain ⟨r, stored, ongoing, -⟩ := removes.cases
  have terms : r.toTerms = s.toTerms := known.recalls.terms stored
  refine ⟨token, r, t, own, stored, ?_, ongoing, read, ?_⟩
  · exact (congrArg Terms.token terms).trans named
  · rwa [show r.deadline = s.deadline from congrArg Terms.deadline terms]

end Steady

/-- A cancellation that has read the clock when the deadline of the session that it found had passed, fails and removes
nothing. -/
theorem fails_of_late_reading {v : View} {r : Except Error Unit} {f n : Deed} {s : Session} (ends : Exam.Cancels r v)
    (finds : f ∈ v.deeds) (found : f.found? = some s.id) (stored : f.before.tables.find? s.id = some s) (reads : n ∈ v.deeds)
    (clock : n.access = .now) (late : s.deadline < n.before.now) :
    (∃ e, r = .error e) ∧ ∀ d ∈ v.deeds, ∀ id, ¬d.Removes id := by
  cases r with
  | error e => exact ⟨⟨e, rfl⟩, ends⟩
  | ok a =>
    obtain ⟨d, n', f', s', deeds, found', stored', clock', inTime, removes⟩ := ends
    obtain ⟨token, access⟩ := Deed.access_of_found? found
    obtain ⟨token', access'⟩ := Deed.access_of_found? found'
    -- each of the three deeds makes an access of its own kind
    have same : f = f' := by
      rw [deeds] at finds
      rcases List.mem_cons.1 finds with rfl | finds
      · cases access.symm.trans removes.1
      rcases List.mem_cons.1 finds with rfl | finds
      · cases access.symm.trans clock'
      · exact List.mem_singleton.1 finds
    have same' : n = n' := by
      rw [deeds] at reads
      rcases List.mem_cons.1 reads with rfl | reads
      · cases clock.symm.trans removes.1
      rcases List.mem_cons.1 reads with rfl | reads
      · rfl
      · cases clock.symm.trans (List.mem_singleton.1 reads ▸ access')
    subst same same'
    have own : s'.id = s.id := Option.some.inj (found'.symm.trans found)
    rw [own] at stored'
    obtain rfl := Option.some.inj (stored'.symm.trans stored)
    exact absurd late (Instant.not_lt.2 inTime)

/-- **What changes an open session was decided in time**, whatever questions the catalog was filled with and in whatever
order the callers act, as long as the clock does not go back. A session is removed by a caller who cancels it while it is ongoing; an answer is taken and a session
is completed while it is ongoing. Each time, the caller has read the clock in the access before this one of
its own, and it showed no instant past the deadline. A cancellation that has read a later
instant fails and removes nothing. -/
theorem in_time_play (questions : List Question) (now : Instant) (quota : Option Quota) (events : List Event)
    (clock : (now :: events.filterMap Event.instant?).Pairwise (· ≤ ·)) :
    let h := (start (.ofList questions) now quota).play events
    (∀ {newer older d id}, h.log = newer ++ d :: older → d.Removes id →
      ∃ token s t, h.operations[d.caller]? = some (.cancel token) ∧ d.before.tables.find? id = some s ∧ s.token = token ∧
        s.status = .ongoing ∧ (d.view older).Read t ∧ t ≤ s.deadline) ∧
    (∀ {newer older d a}, h.log = newer ++ d :: older → d.Stores a →
      ∃ slot s, d.before.tables.slots.get? a.slot = some slot ∧ d.before.tables.find? slot.session = some s ∧
        s.status = .ongoing ∧ (d.view older).Read a.answeredAt ∧ a.answeredAt ≤ s.deadline) ∧
    (∀ {newer older d id s}, h.log = newer ++ d :: older → d.Completes id s →
      ∃ r t, d.before.tables.find? id = some r ∧ r.status = .ongoing ∧ s.finishedAt = some t ∧ (d.view older).Read t ∧
        t ≤ r.deadline) ∧
    ∀ {i token f n s} {r : Except Error Unit}, h.callers[i]? = some ⟨.cancel token, .ofExcept r⟩ → f ∈ (h.view i).deeds →
      f.found? = some s.id → f.before.tables.find? s.id = some s → n ∈ (h.view i).deeds → n.access = .now →
      s.deadline < n.before.now → (∃ e, r = .error e) ∧ ∀ d ∈ (h.view i).deeds, ∀ id, ¬d.Removes id := by
  intro h
  have steady := steady_play (Catalog.keyed_ofList questions) quota clock
  refine ⟨fun log removes => steady.read_of_removes log removes, ?_, ?_, ?_⟩
  · intro newer older d a log stores
    obtain ⟨slot, s, held, stored, ongoing, inTime⟩ := Tables.takesAnswer_iff.1 stores.2
    exact ⟨slot, s, held, stored, ongoing, steady.read_of_stamp log (stores.1 ▸ rfl), inTime⟩
  · intro newer older d id s log completes
    obtain ⟨r, t, access, stored, ongoing, inTime, rfl, -⟩ := completes.cases
    exact ⟨r, t, stored, ongoing, rfl, steady.read_of_stamp log (access ▸ rfl), inTime⟩
  · intro i token f n s r told
    have ends := ends_play (.ofList questions) now quota events told
    cases r with
    | ok a => exact fails_of_late_reading ends
    | error e => exact fails_of_late_reading ends

namespace Sample

/-- Two callers find a session that they want to cancel. The first one reads the clock, then the deadline passes, and the
first one removes the session before the second one reads the clock. -/
def lateRemoval : List Event :=
  opens ++ [Course.Sample.cancels, Course.Sample.cancels].map comes ++ turns [1, 2, 1] ++
    [1, 2, 2].map (.acts · ⟨1800000000001, false⟩)

/-- How the first one removes the session. -/
theorem lateRemoval_removes : ∃ d ∈ (starts.play lateRemoval).log, d.Removes 1 ∧
    d.before.tables.find? 1 = some (Course.Sample.session 1) ∧ d.before.now = ⟨1800000000001, false⟩ := by
  have sound := sound_play Course.Sample.catalog ⟨0, false⟩ none lateRemoval
  have gone : (starts.play lateRemoval).cancelled? 1 = some 1 := by decide +kernel
  obtain ⟨d, logged, -, removes⟩ := removes_of_cancelled? sound gone
  have met : ∀ d ∈ (starts.play lateRemoval).log, d.access = .deleteOngoing 1 →
      d.before.tables.find? 1 = some (Course.Sample.session 1) ∧ d.before.now = ⟨1800000000001, false⟩ := by decide +kernel
  exact ⟨d, logged, removes, met d logged removes.1⟩

end Sample

/-- The session is removed after its deadline, but its caller had read the clock in time; the other cancellation fails. -/
theorem in_time_play_of_late_removal :
    let h := Sample.starts.play Sample.lateRemoval
    let s := Course.Sample.session 1
    (∃ newer d older t, h.log = newer ++ d :: older ∧ d.Removes s.id ∧ s.deadline < d.before.now ∧ (d.view older).Read t ∧
      t ≤ s.deadline) ∧ ∀ d ∈ (h.view 2).deeds, ∀ id, ¬d.Removes id := by
  intro h s
  obtain ⟨d, logged, removes, stored, clock⟩ := Sample.lateRemoval_removes
  obtain ⟨newer, older, log⟩ := List.append_of_mem logged
  obtain ⟨inTime, -, -, fails⟩ := in_time_play _ ⟨0, false⟩ none Sample.lateRemoval (by decide)
  obtain ⟨-, r, t, -, stored', -, -, read, le⟩ := inTime log removes
  obtain rfl := Option.some.inj (stored.symm.trans stored')
  refine ⟨⟨newer, d, older, t, log, removes, ?_, read, le⟩, ?_⟩
  · rw [clock]
    decide
  · have told : h.callers[2]? = some ⟨.cancel "T", .ofExcept (.error (.notFound (.sessionId 1)))⟩ := rfl
    have finds : ∃ f ∈ (h.view 2).deeds, f.found? = some s.id ∧ f.before.tables.find? s.id = some s := by decide +kernel
    have reads : ∃ n ∈ (h.view 2).deeds, n.access = .now ∧ s.deadline < n.before.now := by decide +kernel
    obtain ⟨f, listed, found, stored⟩ := finds
    obtain ⟨n, listed', access, late⟩ := reads
    exact (fails told listed found stored listed' access late).2

/-- A session is not always removed in time, even if the clock never goes back. -/
theorem not_removed_in_time : ¬∀ (questions : List Question) (now : Instant) (quota : Option Quota) (events : List Event),
    (now :: events.filterMap Event.instant?).Pairwise (· ≤ ·) →
      ∀ d ∈ ((start (.ofList questions) now quota).play events).log, ∀ {id s}, d.Removes id →
        d.before.tables.find? id = some s → d.before.now ≤ s.deadline := by
  intro always
  obtain ⟨d, logged, removes, stored, clock⟩ := Sample.lateRemoval_removes
  have inTime := always _ ⟨0, false⟩ none Sample.lateRemoval (by decide) d logged removes stored
  rw [clock] at inTime
  exact absurd inTime (by decide)

end Hall

end Proctor
