import Proctor.Proofs.Hall.Steady

/-!
# The order of time stamps

Whoever writes a time stamp has read it from the clock in an access of its own, and others may read the clock
and write in between. So the order of the stamps is not always that of the writes: a completion may bear an
earlier instant than an answer that counts for it (`not_answered_before_end`). For this, the caller of the answer has to
read the clock after the completion has done so, and to store the answer before the completion is written
(`stamps_play`).
-/

set_option autoImplicit false

namespace Proctor

/-- The caller of the deed read the clock in the deed `n` just before: only others came in between. -/
structure Deed.GoesBy (d n : Deed) (between : List Deed) : Prop where
  caller : n.caller = d.caller
  access : n.access = .now
  others : ∀ e ∈ between, e.caller ≠ d.caller

namespace Hall

variable {h : Hall} {newer older between oldest : List Deed} {d c n r : Deed} {t : Instant} {id : Int} {s : Session} {a : Answer}

theorem exists_of_read (read : (d.view older).Read t) :
    ∃ between n oldest, older = between ++ n :: oldest ∧ d.GoesBy n between ∧ n.before.now = t := by
  obtain ⟨n, rest, deeds, clock, shown⟩ := read.last
  obtain ⟨between, oldest, rfl, others, own, -⟩ := List.filter_eq_cons_iff.1 deeds
  exact ⟨between, n, oldest, rfl, ⟨by simpa using own, clock, by simpa using others⟩, shown⟩

/-- A deed of a history that another deed `n` belongs to came after it, is this deed or came before it. -/
theorem split_or_mem {earlier mid rest : List Deed} {x : Deed} (split : earlier ++ n :: oldest = mid ++ x :: rest) :
    (∃ earliest, earlier = mid ++ x :: earliest) ∨ x = n ∨ x ∈ oldest := by
  obtain ⟨mid', -, there⟩ | ⟨earliest, rfl, there⟩ := List.append_eq_append_iff.1 split
  · have listed : x ∈ n :: oldest := there ▸ List.mem_append_right mid' List.mem_cons_self
    exact .inr (List.mem_cons.1 listed)
  · cases earliest with
    | nil => exact .inr (.inl (List.cons.inj there).1)
    | cons x' earliest =>
      obtain rfl := (List.cons.inj there).1
      exact .inl ⟨earliest, rfl⟩

/-- **What an answer that counts for a completion bears**: if it was stored before the deed `c`, whose caller had read
the clock in the deed `n`, then it bears no later instant, or both the answer and its reading came in between. -/
theorem answered_of_between (steady : Steady h) (log : h.log = newer ++ c :: (between ++ n :: oldest)) (goes : c.GoesBy n between)
    (stores : r.Stores a) (listed : r ∈ between ++ n :: oldest) :
    a.answeredAt ≤ n.before.now ∨ ∃ later mid x earliest, between = later ++ r :: (mid ++ x :: earliest) ∧ r.GoesBy x mid ∧
      x.before.now = a.answeredAt := by
  have stamp : r.access.stamp? = some a.answeredAt := stores.1 ▸ rfl
  have log' : h.log = newer ++ c :: between ++ n :: oldest := by simpa using log
  have past : ∀ e ∈ oldest, e.before.now ≤ n.before.now := fun e listed => steady.now_le_of_mem log' listed
  rcases List.mem_append.1 listed with inside | before
  · obtain ⟨later, earlier, rfl⟩ := List.append_of_mem inside
    have log'' : h.log = newer ++ c :: later ++ r :: (earlier ++ n :: oldest) := by simpa using log
    obtain ⟨mid, x, rest, split, goes', shown⟩ := exists_of_read (steady.read_of_stamp log'' stamp)
    rw [← shown]
    -- the reading of the answer came after that of the completion or before it
    obtain ⟨earliest, rfl⟩ | rfl | listed := split_or_mem split
    · exact .inr ⟨later, mid, x, earliest, rfl, goes', rfl⟩
    · exact absurd (goes'.caller.symm.trans goes.caller) (goes.others r inside)
    · exact .inl (past x listed)
  rcases List.mem_cons.1 before with rfl | before
  · cases goes.access.symm.trans stores.1
  · have logged : r ∈ h.log := by simp [log, before]
    exact .inl (Instant.le_trans (steady.stamp_le logged stamp) (past r before))

/-- An answer of a session that was completed was stored before. -/
theorem exists_stores_of_completes (steady : Steady h) (log : h.log = newer ++ c :: older) (completes : c.Completes id s)
    (listed : a ∈ h.tables.answersOf id) : ∃ r ∈ older, r.Stores a := by
  have valid := steady.sound.valid
  have recorded := steady.sound.recorded
  obtain ⟨slot, own, given⟩ := Tables.mem_answersOf.1 listed
  obtain ⟨held, same⟩ := valid.consistent.mem_slotsOf_iff.1 own
  obtain ⟨r, logged, stores⟩ := recorded.exists_stores given
  rw [log] at logged recorded
  have here : a.slot = slot.id := valid.consistent.answer_slot given
  have stored : c.after.tables.find? slot.session = some s := same ▸ completes.find?_after
  obtain ⟨_, _, access, -, -, -, rfl, -⟩ := completes.cases
  rcases List.mem_append.1 logged with later | before
  · exact absurd later (recorded.not_mem_of_stores stored (by simp [Session.completed]) (here ▸ held) stores)
  rcases List.mem_cons.1 before with rfl | earlier
  · cases access.symm.trans stores.1
  · exact ⟨r, earlier, stores⟩

/-- **The order of time stamps**, whatever questions the catalog was filled with and in whatever order the callers act, as
long as the clock does not go back. No answer is older than its session. No answer of a session that is timed
out is younger than its end. If a session is completed, then it was completed by a deed `c`, whose caller had read its
end from the clock in the deed `n`; and an answer is not younger than this end, or its caller both read the clock
and stored it in between. -/
theorem stamps_play (questions : List Question) (now : Instant) (quota : Option Quota) (events : List Event)
    (clock : (now :: events.filterMap Event.instant?).Pairwise (· ≤ ·)) :
    let h := (start (.ofList questions) now quota).play events
    ∀ {id s}, h.tables.find? id = some s →
      (∀ a ∈ h.tables.answersOf id, s.startedAt ≤ a.answeredAt) ∧
      (s.status = .timeout → ∃ t, s.finishedAt = some t ∧ ∀ a ∈ h.tables.answersOf id, a.answeredAt ≤ t) ∧
      (s.status = .completed → ∃ newer c between n oldest, h.log = newer ++ c :: (between ++ n :: oldest) ∧
        c.Completes id s ∧ c.GoesBy n between ∧ s.finishedAt = some n.before.now ∧
        ∀ a ∈ h.tables.answersOf id, a.answeredAt ≤ c.before.now ∧ (a.answeredAt ≤ n.before.now ∨
          ∃ later r mid x earliest, between = later ++ r :: (mid ++ x :: earliest) ∧ r.Stores a ∧ r.GoesBy x mid ∧
            x.before.now = a.answeredAt)) := by
  intro h id s stored
  have steady : h.Steady := steady_play (Catalog.keyed_ofList questions) quota clock
  have valid := steady.sound.valid
  have lawful : s.Lawful (h.tables.answersOf id) := valid.lawful stored
  refine ⟨?_, ?_, ?_⟩
  · intro a listed
    obtain ⟨slot, own, given⟩ := Tables.mem_answersOf.1 listed
    obtain ⟨held, same⟩ := valid.consistent.mem_slotsOf_iff.1 own
    exact steady.orderly.answered held (same.symm ▸ stored) given
  · intro timedOut
    obtain ⟨t, ended, late⟩ := lawful.timeout timedOut
    refine ⟨t, ended, fun a listed => Instant.le_trans (lawful.answered a listed) ?_⟩
    exact Int.le_of_lt late
  · intro completed
    obtain ⟨c, logged, completes⟩ := steady.sound.recorded.exists_completes stored completed
    obtain ⟨newer, older, log⟩ := List.append_of_mem logged
    obtain ⟨_, t, access, -, -, -, rfl, -⟩ := completes.cases
    have stamp : c.access.stamp? = some t := access ▸ rfl
    obtain ⟨between, n, oldest, rfl, goes, rfl⟩ := exists_of_read (steady.read_of_stamp log stamp)
    refine ⟨newer, c, between, n, oldest, log, completes, goes, rfl, fun a listed => ?_⟩
    obtain ⟨r, earlier, stores⟩ := exists_stores_of_completes steady log completes listed
    constructor
    · have logged : r ∈ h.log := log ▸ List.mem_append_right newer (List.mem_cons_of_mem c earlier)
      exact Instant.le_trans (steady.stamp_le logged (stores.1 ▸ rfl)) (steady.now_le_of_mem log earlier)
    · obtain le | ⟨later, mid, x, earliest, inside, reads, shown⟩ := answered_of_between steady log goes stores earlier
      · exact .inl le
      · exact .inr ⟨later, r, mid, x, earliest, inside, stores, reads, shown⟩

namespace Sample

/-- A completion has read the clock when another caller comes with a right answer, which it stores first. -/
def overtakes : List Event :=
  opens ++ [Course.Sample.completes, Course.Sample.answers].map comes ++ turns [1, 1] ++
    [2, 2, 2, 2, 2, 2, 1].map (.acts · ⟨2, false⟩)

end Sample

/-- The answer counts for the completion and is younger; its caller read the clock and stored it in between. -/
theorem stamps_play_of_overtaking_answer :
    let h := Sample.starts.play Sample.overtakes
    let s := (Course.Sample.session 1).completed [true] ⟨1, false⟩
    let a : Answer := ⟨1, .option .b, true, ⟨2, false⟩⟩
    h.tables.find? 1 = some s ∧ h.tables.answersOf 1 = [a] ∧ s.startedAt ≤ a.answeredAt ∧
      ∃ newer c between n oldest, h.log = newer ++ c :: (between ++ n :: oldest) ∧ c.Completes 1 s ∧ c.GoesBy n between ∧
        n.before.now = ⟨1, false⟩ ∧ ∃ r ∈ between, r.Stores a := by
  intro h s a
  have stored : h.tables.find? 1 = some s := by decide +kernel
  have given : h.tables.answersOf 1 = [a] := by decide +kernel
  have listed : a ∈ h.tables.answersOf 1 := given ▸ List.mem_singleton_self a
  obtain ⟨started, -, ends⟩ := stamps_play _ ⟨0, false⟩ none Sample.overtakes (by decide) stored
  obtain ⟨newer, c, between, n, oldest, log, completes, goes, ended, bounds⟩ := ends rfl
  have shown : n.before.now = ⟨1, false⟩ := (Option.some.inj ended).symm
  obtain ⟨-, le | ⟨later, r, mid, x, earliest, inside, stores, -, -⟩⟩ := bounds a listed
  · rw [shown] at le
    exact absurd le (by decide)
  · have between' : r ∈ between := inside ▸ List.mem_append_right later List.mem_cons_self
    exact ⟨stored, given, started a listed, newer, c, between, n, oldest, log, completes, goes, shown, r, between', stores⟩

/-- An answer is not always stamped before the end of its session, even if the clock never goes back. -/
theorem not_answered_before_end : ¬∀ (questions : List Question) (now : Instant) (quota : Option Quota) (events : List Event),
    (now :: events.filterMap Event.instant?).Pairwise (· ≤ ·) →
      let h := (start (.ofList questions) now quota).play events
      ∀ {id s}, h.tables.find? id = some s →
        (∀ a ∈ h.tables.answersOf id, s.startedAt ≤ a.answeredAt) ∧
        (s.status ≠ .ongoing → ∃ t, s.finishedAt = some t ∧ ∀ a ∈ h.tables.answersOf id, a.answeredAt ≤ t) := by
  intro always
  let h := Sample.starts.play Sample.overtakes
  have stored : h.tables.find? 1 = some ((Course.Sample.session 1).completed [true] ⟨1, false⟩) := by decide +kernel
  have given : ⟨1, .option .b, true, ⟨2, false⟩⟩ ∈ h.tables.answersOf 1 := by decide +kernel
  obtain ⟨t, ended, bound⟩ := (always _ ⟨0, false⟩ none Sample.overtakes (by decide) stored).2 (by decide)
  obtain rfl : (⟨1, false⟩ : Instant) = t := Option.some.inj ended
  exact absurd (bound _ given) (by decide)

end Hall

end Proctor
