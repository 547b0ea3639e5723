import Proctor.Proofs.Exam.Steady
import Proctor.Proofs.Hall.Basic

/-!
# Callers at the same time, while the clock goes on

In a run in which the clock never goes back, every access goes by what its own caller has seen
(`Access.Prompt`), and rows go back to the catalog and to the clock. `Steady` is the invariant, which holds
at each point of such a run (`steady_play`). The catalog keeps each question under its own id, as one that
is made from a list of questions does.
-/

set_option autoImplicit false

namespace Proctor

/-- What the caller of the deed saw when it did it, if these deeds were done before. -/
def Deed.view (d : Deed) (older : List Deed) : View := ⟨d.before, older.filter (·.caller == d.caller)⟩

/-- Rows that go back to the clock do so when it goes on. -/
theorem World.Orderly.later {w : World} (orderly : w.Orderly) {now : Instant} (le : w.now ≤ now) :
    Orderly { w with now := now } where
  keyed := orderly.keyed
  offered := orderly.offered
  started := fun stored => Instant.le_trans (orderly.started stored) le
  answered := orderly.answered

namespace Hall

open Call

/-- The operation that somebody comes with. -/
def Event.operation? : Event → Option Exam.Operation
  | .enters o _ => some o
  | .acts _ _ => none

/-- What the callers are there for, in the order in which they came. -/
def operations (h : Hall) : List Exam.Operation := h.callers.map (·.operation)

variable {h : Hall} {i j : Nat} {now : Instant} {o : Exam.Operation} {q : Access} {next : q.Answer → Call o.Result}

theorem operations_acted (here : h.callers[i]? = some ⟨o, .step q next⟩) : (h.acted i now next).operations = h.operations := by
  have own : h.operations[i]? = some o := by rw [operations, List.getElem?_map, here, Option.map_some]
  obtain ⟨present, same⟩ := List.getElem?_eq_some_iff.1 own
  rw [operations, acted, List.map_set]
  show h.operations.set i o = h.operations
  rw [← same, List.set_getElem_self]

theorem operations_act (h : Hall) (x : Event) : (h.act x).operations = h.operations ++ x.operation?.toList := by
  cases x with
  | enters o fits => exact List.map_append
  | acts i now =>
    rw [Event.operation?, Option.toList_none, List.append_nil]
    obtain eq | ⟨_, _, absurd, _⟩ | ⟨i', now', o, q, next, -, here, eq⟩ := h.act_cases (.acts i now)
    · rw [eq]
    · cases absurd
    · rw [eq, operations_acted here]

/-- Callers stay in the order in which they come. -/
theorem operations_play (h : Hall) (events : List Event) :
    (h.play events).operations = h.operations ++ events.filterMap Event.operation? := by
  induction events generalizing h with
  | nil => exact (List.append_nil _).symm
  | cons x events ih =>
    show ((h.act x).play events).operations = _
    rw [ih, operations_act, List.append_assoc]
    cases x <;> rfl

/-- No access changes the clock. -/
theorem now_acted : (h.acted i now next).world.now = now := World.now_handle _ _

theorem now_act (h : Hall) (x : Event) : (h.act x).world.now = h.world.now ∨ x.instant? = some (h.act x).world.now := by
  obtain eq | ⟨_, _, rfl, eq⟩ | ⟨i, now, o, q, next, rfl, -, eq⟩ := h.act_cases x
  · exact .inl (by rw [eq])
  · exact .inl (by rw [eq, entered])
  · exact .inr (by rw [eq, now_acted, Event.instant?])

/-- What holds in a hall at any time if the clock has not gone back. -/
structure Steady (h : Hall) : Prop where
  sound : h.Sound
  orderly : h.world.Orderly
  keeps : ∀ {i : Nat} {c : Caller}, h.callers[i]? = some c →
    Exam.Steadily c.operation i (fun _ _ => True) c.rest (h.view i)
  prompt : ∀ {newer older d}, h.log = newer ++ d :: older →
    ∃ o, h.operations[d.caller]? = some o ∧ d.access.Prompt o (d.view older)
  /-- The clock has shown nothing later before an access than after it. -/
  clock : (h.world.now :: h.log.map (·.before.now)).Pairwise fun later earlier => earlier ≤ later

theorem steady_start {catalog : Catalog} (keyed : catalog.Keyed) (now : Instant) (quota : Option Quota) :
    (start catalog now quota).Steady where
  sound := sound_start catalog now quota
  orderly := World.orderly_start keyed now quota
  keeps := fun here => by cases here
  prompt := fun listed => by simp [start] at listed
  clock := List.pairwise_singleton _ _

namespace Steady

/-- While the clock goes on, nothing has happened that a caller does not rely on. -/
theorem idle (steady : h.Steady) (i : Nat) (le : h.world.now ≤ now) :
    (h.view i).Waits ⟨{ h.world with now := now }, (h.view i).deeds⟩ :=
  ⟨steady.sound.idle i now, le, steady.orderly.later le⟩

/-- An access of a caller is in order. -/
theorem works_acted (steady : h.Steady) (here : h.callers[i]? = some ⟨o, .step q next⟩) (le : h.world.now ≤ now) :
    View.Works o ⟨{ h.world with now := now }, (h.view i).deeds⟩ ((h.acted i now next).view i) := by
  rw [view_acted_self]
  exact ((steady.keeps here).resume (steady.idle i le)).1

/-- The access that a caller makes goes by what it has seen. -/
theorem prompt_acted (steady : h.Steady) (here : h.callers[i]? = some ⟨o, .step q next⟩) (le : h.world.now ≤ now) :
    q.Prompt o ⟨{ h.world with now := now }, (h.view i).deeds⟩ := by
  obtain ⟨d, deeds, -, prompt⟩ := (steady.works_acted here le).did
  rw [view_acted_self] at deeds
  obtain ⟨rfl, -⟩ := List.cons.inj deeds
  exact prompt

/-- The others have done nothing meanwhile. -/
theorem waits_acted (steady : h.Steady) (here : h.callers[i]? = some ⟨o, .step q next⟩) (le : h.world.now ≤ now) (ne : i ≠ j) :
    (h.view j).Waits ((h.acted i now next).view j) where
  toRests := steady.sound.rests_acted here now ne
  now_le := Instant.le_trans le (steady.works_acted here le).now_le
  orderly := (steady.works_acted here le).orderly

theorem entered (steady : h.Steady) (fits : o.fits = true) : (h.entered o).Steady where
  sound := steady.sound.entered fits
  orderly := steady.orderly
  keeps := by
    intro i c here
    obtain here | ⟨rfl, rfl⟩ := callers_entered here
    · exact steady.keeps here
    · exact Exam.Operation.steady_call fits steady.sound.deeds_new
  prompt := by
    intro newer older d log
    obtain ⟨o', own, prompt⟩ := steady.prompt log
    refine ⟨o', ?_, prompt⟩
    have present := (List.getElem?_eq_some_iff.1 own).1
    rw [operations, Hall.entered, List.map_append]
    exact (List.getElem?_append_left present).trans own
  clock := steady.clock

/-- **One access keeps the invariant**, if the clock has not gone back. -/
theorem acted (steady : h.Steady) (here : h.callers[i]? = some ⟨o, .step q next⟩) (le : h.world.now ≤ now) :
    (h.acted i now next).Steady where
  sound := steady.sound.acted here now
  orderly := (steady.works_acted here le).orderly
  keeps := by
    intro j c there
    by_cases same : i = j
    · subst same
      obtain rfl := Option.some.inj ((callers_acted_self here).symm.trans there)
      rw [view_acted_self]
      exact ((steady.keeps here).resume (steady.idle i le)).2
    · rw [callers_acted_of_ne same] at there
      have waits := steady.waits_acted here le same
      exact (steady.keeps there).stable (fun u further => waits.trans steady.sound.valid further) fun r sane =>
        Exam.sane_of_waits sane waits
  prompt := by
    intro newer older d log
    rw [operations_acted here]
    cases newer with
    | nil =>
      obtain ⟨rfl, rfl⟩ := List.cons.inj log
      refine ⟨o, ?_, steady.prompt_acted here le⟩
      rw [operations, List.getElem?_map, here]
      rfl
    | cons e newer => exact steady.prompt (List.cons.inj log).2
  clock := by
    obtain ⟨shown, ordered⟩ := List.pairwise_cons.1 steady.clock
    have past : ∀ t ∈ h.log.map (·.before.now), t ≤ now := fun t listed => Instant.le_trans (shown t listed) le
    rw [now_acted]
    exact .cons (List.forall_mem_cons.2 ⟨Instant.le_refl now, past⟩) (.cons past ordered)

/-- **The invariant of a step.** -/
theorem act (steady : h.Steady) {x : Event} (clock : ∀ now ∈ x.instant?, h.world.now ≤ now) : (h.act x).Steady := by
  obtain eq | ⟨o, fits, -, eq⟩ | ⟨i, now, o, q, next, rfl, here, eq⟩ := h.act_cases x
  · rw [eq]
    exact steady
  · rw [eq]
    exact steady.entered fits
  · rw [eq]
    exact steady.acted here (clock now rfl)

/-- **The invariant of a run** in which the clock never goes back. -/
theorem play (steady : h.Steady) {events : List Event} (clock : (h.world.now :: events.filterMap Event.instant?).Pairwise (· ≤ ·)) :
    (h.play events).Steady := by
  induction events generalizing h with
  | nil => exact steady
  | cons x events ih =>
    have next : ∀ now ∈ x.instant?, h.world.now ≤ now := by
      intro now shown
      exact List.rel_of_pairwise_cons clock (List.mem_filterMap.2 ⟨x, List.mem_cons_self, shown⟩)
    refine ih (steady.act next) ?_
    obtain same | shown := now_act h x
    · rw [same]
      have fewer := (List.sublist_cons_self x events).filterMap Event.instant?
      exact clock.sublist (fewer.cons_cons h.world.now)
    · rw [List.filterMap_cons_some shown] at clock
      exact clock.tail

/-! ## What the log tells -/

variable {newer older : List Deed} {d : Deed}

/-- The history of the tables that a deed met. -/
theorem recorded_before (steady : h.Steady) (log : h.log = newer ++ d :: older) : Recorded older d.before.tables := by
  have recorded := steady.sound.recorded
  rw [log] at recorded
  exact recorded.upTo.step.2

/-- A write bears the instant that its caller read from the clock just before. -/
theorem read_of_stamp (steady : h.Steady) (log : h.log = newer ++ d :: older) {t : Instant} (stamp : d.access.stamp? = some t) :
    (d.view older).Read t := by
  obtain ⟨o, -, prompt⟩ := steady.prompt log
  exact prompt.stamped t stamp

/-- So it bears no later instant than the clock shows. -/
theorem stamp_le (steady : h.Steady) (logged : d ∈ h.log) {t : Instant} (stamp : d.access.stamp? = some t) : t ≤ d.before.now := by
  obtain ⟨newer, older, log⟩ := List.append_of_mem logged
  exact (steady.read_of_stamp log stamp).le

/-- What was done before was done at no later instant. -/
theorem now_le_of_mem (steady : h.Steady) (log : h.log = newer ++ d :: older) {e : Deed} (listed : e ∈ older) :
    e.before.now ≤ d.before.now := by
  have ordered := steady.clock.tail
  rw [log, List.map_append] at ordered
  exact List.rel_of_pairwise_cons (List.pairwise_append.1 ordered).2.1 (List.mem_map_of_mem listed)

end Steady

/-- **A run in which the clock never goes back is steady** at each point, if each question is found by its own id. -/
theorem steady_play {catalog : Catalog} (keyed : catalog.Keyed) {now : Instant} (quota : Option Quota) {events : List Event}
    (clock : (now :: events.filterMap Event.instant?).Pairwise (· ≤ ·)) : ((start catalog now quota).play events).Steady :=
  (steady_start keyed now quota).play clock

end Hall

end Proctor
