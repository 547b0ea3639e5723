import Proctor.Proofs.Quota
import Mathlib.Data.List.Basic

/-!
# How many sessions a quota allows

The sessions of a user fall into windows (`Windowed`): a window holds at most `limit` and is over before the next one starts. So an interval as
long as a window meets at most two of them, and if it meets two it misses the start of the first. What the quota stores is the last window
unless that has ended (`Kept`), for every user, whoever asks. `bounded_play` says what follows for the log of a gate.
-/

set_option autoImplicit false

namespace Proctor.Quota

/-! ## Windows -/

/-- Sessions, latest first, in windows of a length with at most `limit` each. The last window is `w?`. -/
inductive Windowed (limit : Nat) (length : Int) : Option Window → List Instant → Prop where
  | nil : Windowed limit length none []
  | next {w? : Option Window} {old recent : List Instant} {start : Instant} (before : Windowed limit length w? old)
      (ended : ∀ w ∈ w?, w.start.nanos + length ≤ start.nanos) (few : recent.length < limit)
      (within : ∀ t ∈ recent, start.nanos ≤ t.nanos ∧ t.nanos < start.nanos + length) :
      Windowed limit length (some ⟨start, recent.length + 1⟩) (recent ++ start :: old)

namespace Windowed

variable {limit : Nat} {length : Int} {w? : Option Window} {given : List Instant}

/-- All sessions are before the end of the last window. -/
theorem lt_end (h : Windowed limit length w? given) (positive : 0 < length) {t : Instant} (listed : t ∈ given) :
    ∃ w ∈ w?, t.nanos < w.start.nanos + length := by
  induction h with
  | nil => cases listed
  | @next w? old recent start before ended few within ih =>
    refine ⟨_, rfl, ?_⟩
    rcases List.mem_append.1 listed with new | rest
    · exact (within t new).2
    rcases List.mem_cons.1 rest with rfl | earlier
    · simp only
      omega
    · obtain ⟨w, last, lt⟩ := ih earlier
      have := ended w last
      simp only
      omega

/-- The sessions of windows that have ended are earlier. -/
theorem lt_of_ended (h : Windowed limit length w? given) (positive : 0 < length) {start : Instant}
    (ended : ∀ w ∈ w?, w.start.nanos + length ≤ start.nanos) {t : Instant} (listed : t ∈ given) : t.nanos < start.nanos := by
  obtain ⟨w, last, lt⟩ := h.lt_end positive listed
  have := ended w last
  omega

/-- What comes after the start of the last window is fewer than the limit. -/
theorem countP_lt (h : Windowed limit length w? given) (positive : 0 < length) (room : 0 < limit) {p : Instant → Bool}
    (past : ∀ t, p t → ∀ w ∈ w?, w.start.nanos < t.nanos) : given.countP p < limit := by
  cases h with
  | nil => simpa using room
  | @next w? old recent start before ended few within =>
    have rest : (start :: old).countP p = 0 := by
      refine List.countP_eq_zero.2 fun t listed chosen => ?_
      have lt := past t chosen _ rfl
      rcases List.mem_cons.1 listed with rfl | earlier
      · exact Int.lt_irrefl _ lt
      · have := before.lt_of_ended positive ended earlier
        simp only at lt
        omega
    have := List.countP_le_length (p := p) (l := recent)
    rw [List.countP_append, rest]
    omega

/-- **Sessions less than a window apart** are fewer than twice the limit. -/
theorem countP_le_of_close (h : Windowed limit length w? given) (positive : 0 < length) (room : 0 < limit) {p : Instant → Bool}
    (close : ∀ s t, p s → p t → t.nanos - s.nanos < length) : given.countP p ≤ 2 * limit - 1 := by
  induction h with
  | nil => simp
  | @next w? old recent start before ended few within ih =>
    rw [List.countP_append, List.countP_cons]
    by_cases met : ∃ t, p t ∧ start.nanos ≤ t.nanos
    · obtain ⟨t, chosen, le⟩ := met
      -- The window before started too early to count its first session as well.
      have fewer : old.countP p < limit := before.countP_lt positive room fun s chosen' w last => by
        have := close s t chosen' chosen
        have := ended w last
        omega
      have := List.countP_le_length (p := p) (l := recent)
      split <;> omega
    · have new : recent.countP p = 0 := List.countP_eq_zero.2 fun t listed chosen => met ⟨t, chosen, (within t listed).1⟩
      have first : ¬p start := fun chosen => met ⟨start, chosen, Int.le_refl _⟩
      rw [new, if_neg first]
      simpa using ih

theorem first_le (h : Windowed limit length w? given) (positive : 0 < length) {first : Instant} (last : given.getLast? = some first) :
    ∀ w ∈ w?, first.nanos ≤ w.start.nanos := by
  cases h with
  | nil => simp
  | @next w? old recent start before ended few within =>
    rintro _ ⟨⟩
    rw [List.getLast?_append_cons] at last
    rcases List.mem_cons.1 (List.mem_of_getLast? last) with rfl | earlier
    · exact Int.le_refl _
    · exact Int.le_of_lt (before.lt_of_ended positive ended earlier)

/-- **Sessions less than a window after the first** are in its window. -/
theorem countP_le_of_first (h : Windowed limit length w? given) (positive : 0 < length) {first : Instant}
    (last : given.getLast? = some first) {p : Instant → Bool} (soon : ∀ t, p t → t.nanos < first.nanos + length) :
    given.countP p ≤ limit := by
  induction h with
  | nil => simp
  | @next w? old recent start before ended few within ih =>
    rw [List.getLast?_append_cons] at last
    cases before with
    | nil =>
      have := List.countP_le_length (p := p) (l := recent ++ [start])
      rw [List.length_append, List.length_singleton] at this
      omega
    | @next w' older recent' start' before' ended' few' within' =>
      have first_last : (recent' ++ start' :: older).getLast? = some first := by
        cases recent' <;> simpa using last
      have le := (Windowed.next before' ended' few' within').first_le positive first_last _ rfl
      have gap := ended _ rfl
      simp only at le gap
      have late : ∀ t, start.nanos ≤ t.nanos → ¬p t := fun t from_start chosen => by
        have := soon t chosen
        omega
      have new : recent.countP p = 0 := List.countP_eq_zero.2 fun t listed => late t (within t listed).1
      rw [List.countP_append, List.countP_cons, new, if_neg (late start (Int.le_refl _))]
      simpa using ih first_last

/-! ## One more session -/

variable {q : Quota} {now : Instant}

/-- A session that there is room for is counted in the last window, or in a new one if that has ended. -/
theorem counting (h : Windowed q.limit q.window w? given) (latest : ∀ t ∈ given, t.nanos ≤ now.nanos)
    (room : ((w?.filter (q.runs now)).getD ⟨now, 0⟩).count < q.limit) :
    Windowed q.limit q.window (some ((w?.filter (q.runs now)).getD ⟨now, 0⟩).counting) (now :: given) := by
  have fresh (ended : ∀ w ∈ w?, w.start.nanos + q.window ≤ now.nanos) (none : w?.filter (q.runs now) = none) :
      Windowed q.limit q.window (some ((w?.filter (q.runs now)).getD ⟨now, 0⟩).counting) (now :: given) := by
    have alone : Windowed q.limit q.window (some ⟨now, ([] : List Instant).length + 1⟩) ([] ++ now :: given) := by
      refine .next h ended ?_ (by simp)
      rwa [none] at room
    rwa [none]
  cases h with
  | nil => exact fresh (by simp) rfl
  | @next w? old recent start before ended few within =>
    by_cases runs : q.runs now ⟨start, recent.length + 1⟩
    · rw [Option.filter_some_pos runs, Option.getD_some] at room ⊢
      have young : start.nanos ≤ now.nanos ∧ now.nanos < start.nanos + q.window := by
        have := latest start (by simp)
        have := runs_iff.1 runs
        simp only at this
        omega
      have within : ∀ t ∈ now :: recent, start.nanos ≤ t.nanos ∧ t.nanos < start.nanos + q.window := by
        simpa using ⟨young, within⟩
      have longer : Windowed q.limit q.window (some ⟨start, (now :: recent).length + 1⟩) (now :: recent ++ start :: old) :=
        .next before ended room within
      exact longer
    · refine fresh ?_ (Option.filter_some_neg (Bool.eq_false_iff.2 runs))
      rintro _ ⟨⟩
      rw [runs_iff] at runs
      omega

/-- Where there is no room, the last window runs and is full, of sessions younger than its length. -/
theorem full (h : Windowed q.limit q.window w? given) (positive : 0 < q.limit)
    (full : ¬((w?.filter (q.runs now)).getD ⟨now, 0⟩).count < q.limit) :
    (∃ w, w? = some w ∧ q.runs now w) ∧ q.limit ≤ given.countP fun t => now.nanos - t.nanos < q.window := by
  cases h with
  | nil => exact absurd positive full
  | @next w? old recent start before ended few within =>
    by_cases runs : q.runs now ⟨start, recent.length + 1⟩
    · refine ⟨⟨_, rfl, runs⟩, ?_⟩
      rw [Option.filter_some_pos runs, Option.getD_some] at full
      rw [runs_iff] at runs
      have young : (recent ++ [start]).countP (fun t => now.nanos - t.nanos < q.window) = recent.length + 1 := by
        rw [List.countP_eq_length.2, List.length_append, List.length_singleton]
        intro t listed
        rcases List.mem_append.1 listed with new | first
        · have := (within t new).1
          simp only at runs
          simp
          omega
        · obtain rfl := List.mem_singleton.1 first
          simpa using runs
      have split : recent ++ start :: old = (recent ++ [start]) ++ old := by simp
      rw [split, List.countP_append, young]
      simp only at full
      omega
    · rw [Option.filter_some_neg (Bool.eq_false_iff.2 runs)] at full
      exact absurd positive full

end Windowed

/-! ## The log of a gate -/

/-- The instants of the sessions that a user was allowed, latest first. -/
def given (log : List Answered) (user : Uuid) : List Instant :=
  (log.filter fun r => decide (r.user = user) && r.allowed).map (·.now)

/-- Whoever was denied a session had `limit` sessions before, all younger than `length`. -/
def Grounded (limit : Nat) (length : Int) (log : List Answered) : Prop :=
  ∀ later r earlier, log = later ++ r :: earlier → r.allowed = false →
    limit ≤ (given earlier r.user).countP fun t => r.now.nanos - t.nanos < length

/-- What a limit of sessions in windows of a length says of a log. -/
structure Bounded (limit : Nat) (length : Int) (log : List Answered) : Prop where
  /-- In a half-open interval of that length a user has fewer than twice as many. -/
  sliding : ∀ user (start : Int),
    (given log user).countP (fun t => start ≤ t.nanos ∧ t.nanos < start + length) ≤ 2 * limit - 1 ∧
    (given log user).countP (fun t => start < t.nanos ∧ t.nanos ≤ start + length) ≤ 2 * limit - 1
  /-- From the first call of a user on there are no more than the limit. -/
  opening : ∀ later first earlier, log = later ++ first :: earlier → (∀ r ∈ earlier, r.user ≠ first.user) →
    (given log first.user).countP (fun t => first.now.nanos ≤ t.nanos ∧ t.nanos < first.now.nanos + length) ≤ limit
  grounded : Grounded limit length log

theorem given_cons (r : Answered) (log : List Answered) (user : Uuid) :
    given (r :: log) user = if r.user = user ∧ r.allowed then r.now :: given log user else given log user := by
  unfold given
  rw [List.filter_cons]
  simp only [Bool.and_eq_true, decide_eq_true_eq]
  split <;> rfl

theorem given_append (later earlier : List Answered) (user : Uuid) :
    given (later ++ earlier) user = given later user ++ given earlier user := by simp [given]

theorem mem_given {log : List Answered} {user : Uuid} {t : Instant} (listed : t ∈ given log user) : ∃ r ∈ log, r.now = t := by
  obtain ⟨r, chosen, rfl⟩ := List.mem_map.1 listed
  exact ⟨r, List.mem_of_mem_filter chosen, rfl⟩

theorem given_eq_nil {log : List Answered} {user : Uuid} (none : ∀ r ∈ log, r.user ≠ user) : given log user = [] := by
  unfold given
  rw [List.filter_eq_nil_iff.2 fun r listed => by simp [none r listed], List.map_nil]

theorem Grounded.cons {limit : Nat} {length : Int} {r : Answered} {log : List Answered} (h : Grounded limit length log)
    (full : r.allowed = false → limit ≤ (given log r.user).countP fun t => r.now.nanos - t.nanos < length) :
    Grounded limit length (r :: log) := by
  intro later r' earlier split denied
  cases later with
  | nil =>
    obtain ⟨rfl, rfl⟩ := List.cons.inj split
    exact full denied
  | cons _ later => exact h later r' earlier (List.cons.inj split).2 denied

/-! ## What a gate keeps -/

namespace Gate

variable {g : Gate} {a : Ask} {user : Uuid}

/-- The sessions of a user fall into windows, of which the quota knows the last one until it has ended. -/
def Follows (g : Gate) (user : Uuid) : Prop :=
  ∃ w?, Windowed g.quota.limit g.quota.window w? (given g.log user) ∧
    ∀ now, (∀ r ∈ g.log, r.now ≤ now) → g.quota.live user now = w?.filter (g.quota.runs now)

/-- What others ask for makes no difference. -/
theorem Follows.take_of_ne (h : g.Follows user) (ne : user ≠ a.user) : (g.take a).Follows user := by
  obtain ⟨w?, windowed, known⟩ := h
  refine ⟨w?, ?_, fun now latest => ?_⟩
  · rwa [limit_take, window_take, log_take, given_cons, if_neg fun same => ne same.1.symm]
  · have before := known now fun r listed => latest r (List.mem_cons_of_mem _ listed)
    rw [take, runs_allow, live_allow_of_ne ne (latest _ List.mem_cons_self), before]

/-- A session is counted in the last window or starts a new one; if it is denied, the last window runs and is full. -/
theorem Follows.take (h : g.Follows a.user) (positive : 0 < g.quota.limit) (ordered : ∀ r ∈ g.log, r.now ≤ a.now) :
    (g.take a).Follows a.user ∧ ((g.quota.allow a.user a.now).1 = false →
      g.quota.limit ≤ (given g.log a.user).countP fun t => a.now.nanos - t.nanos < g.quota.window) := by
  obtain ⟨w?, windowed, known⟩ := h
  have current : g.quota.current a.user a.now = (w?.filter (g.quota.runs a.now)).getD ⟨a.now, 0⟩ := by
    rw [Quota.current, known a.now ordered]
  have latest : ∀ t ∈ given g.log a.user, t.nanos ≤ a.now.nanos := fun t listed => by
    obtain ⟨r, answered, rfl⟩ := mem_given listed
    exact ordered r answered
  have live (now : Instant) : (g.take a).quota.live a.user now =
      (some (g.quota.after a.user a.now)).filter ((g.take a).quota.runs now) := by
    rw [Gate.take, runs_allow, live_allow]
  by_cases room : (g.quota.current a.user a.now).count < g.quota.limit
  · have allowed : (g.quota.allow a.user a.now).1 = true := by rw [allow_fst, decide_eq_true room]
    refine ⟨⟨some (g.quota.after a.user a.now), ?_, fun now _ => live now⟩, fun denied => by simp [allowed] at denied⟩
    rw [limit_take, window_take, log_take, given_cons, if_pos ⟨rfl, allowed⟩, Quota.after, if_pos room, current]
    rw [current] at room
    exact windowed.counting latest room
  · have denied : (g.quota.allow a.user a.now).1 = false := by rw [allow_fst, decide_eq_false room]
    obtain ⟨⟨w, rfl, runs⟩, young⟩ := windowed.full positive (by rwa [current] at room)
    refine ⟨⟨some w, ?_, fun now _ => ?_⟩, fun _ => young⟩
    · rwa [limit_take, window_take, log_take, given_cons, if_neg fun same => by simp [denied] at same]
    · rw [live, Quota.after, if_neg room, current, Option.filter_some_pos runs, Option.getD_some]

structure Kept (g : Gate) : Prop where
  follows : ∀ user, g.Follows user
  grounded : Grounded g.quota.limit g.quota.window g.log

theorem kept_start (limit : Nat) (length : Int) : Kept ⟨⟨limit, length, ∅⟩, []⟩ where
  follows _ := ⟨none, .nil, fun _ _ => rfl⟩
  grounded later r earlier split := by simp at split

/-- **One call**, no earlier than those before. -/
theorem Kept.take (kept : g.Kept) (positive : 0 < g.quota.limit) (ordered : ∀ r ∈ g.log, r.now ≤ a.now) : (g.take a).Kept := by
  obtain ⟨follows, full⟩ := (kept.follows a.user).take positive ordered
  constructor
  · intro user
    by_cases same : user = a.user
    · exact same ▸ follows
    · exact (kept.follows user).take_of_ne same
  · rw [limit_take, window_take, log_take]
    exact kept.grounded.cons full

/-- **Any number of calls**, each no earlier than those before. -/
theorem Kept.play (kept : g.Kept) (positive : 0 < g.quota.limit) {asks : List Ask} (ordered : asks.Pairwise (·.now ≤ ·.now))
    (latest : ∀ r ∈ g.log, ∀ a ∈ asks, r.now ≤ a.now) :
    (g.play asks).Kept ∧ (g.play asks).quota.limit = g.quota.limit ∧ (g.play asks).quota.window = g.quota.window := by
  induction asks generalizing g with
  | nil => exact ⟨kept, rfl, rfl⟩
  | cons a asks ih =>
    obtain ⟨first, ordered⟩ := List.pairwise_cons.1 ordered
    have step : (g.take a).Kept := kept.take positive fun r listed => latest r listed a List.mem_cons_self
    have rest := ih step (by simpa using positive) ordered fun r listed b later => by
      rcases List.mem_cons.1 listed with rfl | listed
      · exact first b later
      · exact latest r listed b (List.mem_cons_of_mem _ later)
    simpa [Gate.play] using rest

/-- **A gate keeps to its limit.** -/
theorem Kept.bounded (kept : g.Kept) (room : 0 < g.quota.limit) (positive : 0 < g.quota.window) :
    Bounded g.quota.limit g.quota.window g.log where
  sliding user start := by
    obtain ⟨w?, windowed, -⟩ := kept.follows user
    constructor <;> refine windowed.countP_le_of_close positive room fun s t from_start soon => ?_
    all_goals
      simp only [decide_eq_true_eq] at from_start soon
      omega
  opening later first earlier split new := by
    obtain ⟨w?, windowed, -⟩ := kept.follows first.user
    have none : given earlier first.user = [] := given_eq_nil new
    -- Denied it would have had sessions before.
    have allowed : first.allowed = true := by
      by_contra denied
      have := kept.grounded later first earlier split (by simpa using denied)
      rw [none] at this
      simp at this
      omega
    have oldest : (given g.log first.user).getLast? = some first.now := by
      rw [split, given_append, given_cons, if_pos ⟨rfl, allowed⟩, none]
      exact List.getLast?_concat
    refine windowed.countP_le_of_first positive oldest fun t soon => ?_
    simp only [decide_eq_true_eq] at soon
    omega
  grounded := kept.grounded

/-- **A gate keeps to its limit in any run**, if calls come each no earlier than those before. -/
theorem Kept.bounded_of_play (kept : g.Kept) (room : 0 < g.quota.limit) (positive : 0 < g.quota.window) {asks : List Ask}
    (ordered : asks.Pairwise (·.now ≤ ·.now)) (latest : ∀ r ∈ g.log, ∀ a ∈ asks, r.now ≤ a.now) :
    Bounded g.quota.limit g.quota.window (g.play asks).log := by
  obtain ⟨later, limit, window⟩ := kept.play room ordered latest
  have bounded := later.bounded (limit ▸ room) (window ▸ positive)
  rwa [limit, window] at bounded

end Gate

/-- **What the quota allows.** Calls of any users, each no earlier than those before, keep to the limit in windows of the length that was
asked for, where a limit of zero counts as one. -/
theorem bounded_play (limit : Nat) {seconds : Nat} (positive : 1 ≤ seconds) (short : (seconds : Int) ≤ longest) {asks : List Ask}
    (ordered : asks.Pairwise (·.now ≤ ·.now)) :
    ∃ q, ofSeconds? limit seconds = some q ∧
      Bounded (max limit 1) (seconds * Instant.nanosPerSecond) (Gate.play ⟨q, []⟩ asks).log := by
  refine ⟨_, ofSeconds?_eq_some limit positive short, ?_⟩
  have room : 0 < max limit 1 := by omega
  have length : 0 < seconds * Instant.nanosPerSecond := by
    unfold Instant.nanosPerSecond
    omega
  obtain ⟨kept, sameLimit, sameWindow⟩ :=
    (Gate.kept_start (max limit 1) (seconds * Instant.nanosPerSecond)).play room ordered (by simp)
  have bounded := kept.bounded (sameLimit ▸ room) (sameWindow ▸ length)
  rwa [sameLimit, sameWindow] at bounded

/-- With two sessions in a minute, a user who waits for the last second of a window and then for the next window gets three in three seconds, and
no fourth. -/
theorem bounded_play_of_turn :
    let second (n : Int) : Instant := ⟨n * Instant.nanosPerSecond, false⟩
    let asks : List Ask :=
      [⟨⟨1⟩, second 0⟩, ⟨⟨2⟩, second 30⟩, ⟨⟨1⟩, second 59⟩, ⟨⟨1⟩, second 60⟩, ⟨⟨1⟩, second 61⟩, ⟨⟨1⟩, second 62⟩]
    asks.Pairwise (·.now ≤ ·.now) ∧ ∃ q, ofSeconds? 2 60 = some q ∧
      (Gate.play ⟨q, []⟩ asks).log.map (·.allowed) = [false, true, true, true, true, true] ∧
      Bounded 2 (60 * Instant.nanosPerSecond) (Gate.play ⟨q, []⟩ asks).log := by
  intro second asks
  have ordered : asks.Pairwise (·.now ≤ ·.now) := by decide
  obtain ⟨q, valid, bounded⟩ := @bounded_play 2 60 (by decide) (by decide) asks ordered
  refine ⟨ordered, q, valid, ?_, bounded⟩
  obtain rfl := Option.some.inj (valid.symm.trans (ofSeconds?_eq_some 2 (by decide) (by decide)))
  decide

end Proctor.Quota
