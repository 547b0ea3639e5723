import Proctor.Proofs.Hall.Basic

/-!
# How a session ends, among many callers

Completion, time-out and cancellation compete for a session; each of them looks at it, decides and
writes in different accesses. Still all callers agree on what has become of it
(`endings_play`): whatever a caller is shown of a session that has ended is the record that is
stored, and a session that was cancelled is gone before anybody could be told that it ended
otherwise.
-/

set_option autoImplicit false

namespace Proctor

namespace Hall

/-- The session that caller `i` has found by its token. -/
def subject? (h : Hall) (i : Nat) : Option Int := Proctor.subject? (h.view i).deeds

/-- The sessions that caller `i` was shown. -/
def shown (h : Hall) (i : Nat) : List Session :=
  match h.callers[i]? with
  | some ⟨o, .done a⟩ => o.shown a
  | _ => []

/-- The session that caller `i` has cancelled. -/
def cancelled? (h : Hall) (i : Nat) : Option Int :=
  match h.callers[i]? with
  | some ⟨.cancel _, .done _⟩ => h.subject? i
  | _ => none

/-- Caller `i` was told that the session is in this state: it was shown the session, or was given the state
of the session that it had found as the reason of an error. -/
def Tells (h : Hall) (i : Nat) (id : Int) (status : Status) : Prop :=
  (∃ s ∈ h.shown i, s.id = id ∧ s.status = status) ∨
    ∃ e, h.error? i = some e ∧ e.told? = some status ∧ h.subject? i = some id

variable {h : Hall} {i j : Nat} {id : Int} {s : Session} {status : Status} {token : String}

/-- A session that somebody was shown was stored like that. -/
theorem recalls_of_shown (sound : h.Sound) (listed : s ∈ h.shown i) : h.tables.Recalls s := by
  unfold shown at listed
  split at listed
  · rename_i o a told
    exact (sound.tells (r := .ok a) told).shown s listed
  · cases listed

/-- A completion shows a completed session, which is stored like that. -/
theorem stored_of_complete (sound : h.Sound) (told : h.callers[i]? = some ⟨.complete token, .done s⟩) :
    s.status = .completed ∧ h.tables.find? s.id = some s := by
  have completed : s.status = .completed := (sound.tells (o := .complete token) (r := .ok s) told).proves
  have listed : s ∈ h.shown i := by simp only [shown, told, Exam.Operation.shown, List.mem_singleton]
  exact ⟨completed, (recalls_of_shown sound listed).stored (by simp [completed])⟩

/-- If somebody was told that a session has ended, it is stored like that. -/
theorem exists_of_tells (sound : h.Sound) (tells : h.Tells i id status) (finished : status ≠ .ongoing) :
    ∃ s, h.tables.find? id = some s ∧ s.status = status := by
  rcases tells with ⟨s, listed, rfl, rfl⟩ | ⟨e, failed, told, subject⟩
  · exact ⟨s, (recalls_of_shown sound listed).stored finished, rfl⟩
  · obtain ⟨o, here⟩ := exists_of_error? failed
    obtain ⟨s, known, rfl⟩ := sound.tells (r := .error e) here status told
    obtain rfl := Option.some.inj (subject.symm.trans known.subject)
    exact ⟨s, known.recalls.stored finished, rfl⟩

/-- Whoever was told that a session was cancelled has removed it. -/
theorem removes_of_cancelled (sound : h.Sound) (told : h.callers[i]? = some ⟨.cancel token, .done ()⟩) :
    ∃ id, h.cancelled? i = some id ∧ ∃ d ∈ h.log, d.caller = i ∧ d.Removes id := by
  have vouched : Exam.Operation.Vouches (.cancel token) () (h.view i) := sound.accounts told
  obtain ⟨id, subject, d, listed, removes⟩ := vouched.proves
  obtain ⟨logged, mine⟩ := List.mem_filter.1 listed
  refine ⟨id, ?_, d, logged, by simpa using mine, removes⟩
  simp only [cancelled?, told]
  exact subject

theorem exists_of_cancelled? (here : h.cancelled? i = some id) : ∃ token, h.callers[i]? = some ⟨.cancel token, .done ()⟩ := by
  unfold cancelled? at here
  split at here
  · exact ⟨_, by assumption⟩
  · cases here

theorem removes_of_cancelled? (sound : h.Sound) (here : h.cancelled? i = some id) : ∃ d ∈ h.log, d.caller = i ∧ d.Removes id := by
  obtain ⟨token, told⟩ := exists_of_cancelled? here
  obtain ⟨id', here', d, listed, mine, removes⟩ := removes_of_cancelled sound told
  obtain rfl := Option.some.inj (here.symm.trans here')
  exact ⟨d, listed, mine, removes⟩

/-- A cancelled session is gone. -/
theorem find?_of_cancelled (sound : h.Sound) (here : h.cancelled? i = some id) : h.tables.find? id = none := by
  obtain ⟨d, listed, -, removes⟩ := removes_of_cancelled? sound here
  obtain ⟨newer, older, log⟩ := List.append_of_mem listed
  have recorded := sound.recorded
  rw [log] at recorded
  exact recorded.find?_of_removes removes

/-- A session is cancelled by one caller at most. -/
theorem eq_of_cancelled (sound : h.Sound) (here : h.cancelled? i = some id) (there : h.cancelled? j = some id) : i = j := by
  obtain ⟨d, listed, rfl, removes⟩ := removes_of_cancelled? sound here
  obtain ⟨e, listed', rfl, removes'⟩ := removes_of_cancelled? sound there
  rw [sound.recorded.eq_of_removes removes removes' listed listed']

/-- **All callers agree on how a session has ended**, in whatever order they act and whatever the clock shows.
Completions of one session show the same record. A session is cancelled once at most, and then nobody
is told that it has ended otherwise. If somebody was told that it is completed or timed out, then from
then on the record with this state is stored, nobody is told of another end, and no cancellation
succeeds, nor, after a time-out, a completion. -/
theorem endings_play (catalog : Catalog) (now : Instant) (quota : Option Quota) (events : List Event) :
    let h := (start catalog now quota).play events
    (∀ {i j : Nat} {token token' : String} {s s' : Session}, h.callers[i]? = some ⟨.complete token, .done s⟩ →
      h.callers[j]? = some ⟨.complete token', .done s'⟩ → s.id = s'.id → s = s') ∧
    (∀ {i : Nat} {token : String}, h.callers[i]? = some ⟨.cancel token, .done ()⟩ → ∃ id, h.cancelled? i = some id) ∧
    (∀ {i j id}, h.cancelled? i = some id → h.cancelled? j = some id → i = j) ∧
    (∀ {i j id status}, h.cancelled? i = some id → h.Tells j id status → status = .ongoing) ∧
    ∀ {i id status}, h.Tells i id status → status ≠ .ongoing → ∃ s, s.status = status ∧ ∀ more,
      let g := h.play more
      g.tables.find? id = some s ∧ (∀ j, g.cancelled? j ≠ some id) ∧
        (∀ {j status'}, g.Tells j id status' → status' ≠ .ongoing → status' = status) ∧
        (status = .timeout → ∀ {j : Nat} {token : String} {s' : Session}, g.callers[j]? = some ⟨.complete token, .done s'⟩ → s'.id ≠ id) := by
  intro h
  have sound := sound_play catalog now quota events
  refine ⟨?_, ?_, eq_of_cancelled sound, ?_, ?_⟩
  · intro i j token token' s s' told told' same
    have stored := (stored_of_complete sound told).2
    rw [same, (stored_of_complete sound told').2] at stored
    exact (Option.some.inj stored).symm
  · intro i token told
    obtain ⟨id, here, -⟩ := removes_of_cancelled sound told
    exact ⟨id, here⟩
  · intro i j id status here tells
    by_contra finished
    obtain ⟨s, stored, -⟩ := exists_of_tells sound tells finished
    cases (find?_of_cancelled sound here).symm.trans stored
  · intro i id status tells finished
    obtain ⟨s, stored, rfl⟩ := exists_of_tells sound tells finished
    refine ⟨s, rfl, fun more => ?_⟩
    intro g
    obtain ⟨sound', follows⟩ := sound.play more
    have stored' : g.tables.find? id = some s := follows.evolves.ended stored finished
    refine ⟨stored', ?_, ?_, ?_⟩
    · intro j here
      cases (find?_of_cancelled sound' here).symm.trans stored'
    · intro j status' tells' finished'
      obtain ⟨s', there, rfl⟩ := exists_of_tells sound' tells' finished'
      rw [Option.some.inj (there.symm.trans stored')]
    · rintro timedOut j token s' told rfl
      obtain ⟨completed, there⟩ := stored_of_complete sound' told
      obtain rfl := Option.some.inj (there.symm.trans stored')
      cases completed.symm.trans timedOut

/-- Two completions and a cancellation that have all found the session ongoing: the completions show one record,
and nobody will ever cancel the session. -/
theorem endings_play_of_race :
    let h := Sample.starts.play (Sample.opens ++ [.enters (.complete "T") rfl, .enters (.complete "T") rfl,
      .enters (.cancel "T") rfl] ++ Sample.turns [1, 2, 3, 1, 2, 3, 1, 2, 3, 2, 2])
    let s := (Course.Sample.session 1).completed [] ⟨1, false⟩
    h.shown 1 = [s] ∧ h.shown 2 = [s] ∧ h.error? 3 = some (.state .alreadyLeft) ∧
      ∀ more j, (h.play more).cancelled? j ≠ some 1 := by
  intro h s
  have shown : h.shown 1 = [s] := by decide +kernel
  have tells : h.Tells 1 1 .completed := .inl ⟨s, by simp [shown], rfl, rfl⟩
  obtain ⟨_, -, settled⟩ := (endings_play Course.Sample.catalog ⟨0, false⟩ none _).2.2.2.2 tells (by decide)
  exact ⟨shown, by decide +kernel, by decide +kernel, fun more => (settled more).2.1⟩

end Hall

end Proctor
