import Proctor.Proofs.Quota.Windows
import Proctor.Proofs.Text.Integer
import Proctor.Startup

/-!
# Which settings limit anything

The window of the settings is an unsigned 64-bit number of seconds, and is taken as a signed one. Up to the longest length of time
it is a window, and the quota keeps to its limit. Beyond, it is no length of time and there is no quota, or it is negative: then each
window is over as soon as it starts, and everything is allowed. Main statement: `Startup.limited_iff`.
-/

set_option autoImplicit false

namespace Proctor

namespace Quota

variable {q : Quota} {user : Uuid} {now later : Instant}

/-! ## Windows that are over at once -/

/-- No window runs any more. -/
def Idle (q : Quota) (now : Instant) : Prop := ∀ user later, now ≤ later → q.live user later = none

namespace Idle

theorem current (idle : q.Idle now) (le : now ≤ later) (user : Uuid) : q.current user later = ⟨later, 0⟩ := by
  rw [Quota.current, idle user later le]
  rfl

theorem allowed (idle : q.Idle now) (le : now ≤ later) (room : 0 < q.limit) (user : Uuid) : (q.allow user later).1 = true := by
  rw [allow_fst, idle.current le, decide_eq_true room]

/-- **One call** starts a window that does not run. -/
theorem allow (idle : q.Idle now) (lapsed : q.window ≤ 0) (le : now ≤ later) (user : Uuid) : (q.allow user later).2.Idle later := by
  intro other instant from_later
  by_cases own : other = user
  · -- the window starts now, and ends no later
    subst own
    have start : (q.after other later).start = later := by
      rw [after, idle.current le]
      split <;> rfl
    have ended : q.runs instant (q.after other later) = false := by
      rw [Bool.eq_false_iff]
      intro runs
      rw [runs_iff, start] at runs
      have := Instant.le_iff.1 from_later
      omega
    rw [live_allow, Option.filter_some_neg ended]
  · rw [live_allow_of_ne own from_later, idle other instant (Instant.le_trans le from_later)]

end Idle

namespace Gate

variable {g : Gate} {asks : List Ask}

/-- **Any number of calls** are all allowed if windows do not run. -/
theorem allowed_of_idle (idle : g.quota.Idle now) (lapsed : g.quota.window ≤ 0) (room : 0 < g.quota.limit)
    (ordered : asks.Pairwise (·.now ≤ ·.now)) (latest : ∀ a ∈ asks, now ≤ a.now) (before : ∀ r ∈ g.log, r.allowed = true) :
    ∀ r ∈ (g.play asks).log, r.allowed = true := by
  induction asks generalizing now g with
  | nil => exact before
  | cons a asks ih =>
    obtain ⟨first, ordered⟩ := List.pairwise_cons.1 ordered
    have le : now ≤ a.now := latest a List.mem_cons_self
    refine ih (g := g.take a) (idle.allow lapsed le a.user) (by simpa using lapsed) (by simpa using room) ordered first fun r listed => ?_
    rw [log_take] at listed
    rcases List.mem_cons.1 listed with rfl | listed
    · exact idle.allowed le room a.user
    · exact before r listed

/-- The log has the calls, latest first. -/
theorem map_log_play (g : Gate) (asks : List Ask) :
    (g.play asks).log.map (·.toAsk) = asks.reverse ++ g.log.map (·.toAsk) := by
  induction asks generalizing g with
  | nil => rfl
  | cons a asks ih =>
    show ((g.take a).play asks).log.map _ = _
    rw [ih, log_take, List.map_cons, List.reverse_cons, List.append_assoc]
    rfl

end Gate

/-! ## A limit on what is given at first -/

/-- Less than a length of time after their first call, users get no more sessions than the limit. -/
def Limited (limit : Nat) (length : Int) (log : List Answered) : Prop :=
  ∀ later first earlier, log = later ++ first :: earlier → (∀ r ∈ earlier, r.user ≠ first.user) →
    (given log first.user).countP (fun t => first.now.nanos ≤ t.nanos ∧ t.nanos < first.now.nanos + length) ≤ limit

theorem limited_of_short (limit : Nat) {seconds : Nat} (short : (seconds : Int) ≤ longest) :
    ∃ q, ofSeconds? limit seconds = some q ∧ ∀ asks : List Ask, asks.Pairwise (·.now ≤ ·.now) →
      Limited (max limit 1) (max (seconds : Int) 1 * Instant.nanosPerSecond) (Gate.play ⟨q, []⟩ asks).log := by
  have fits : (seconds : Int) < 2 ^ 64 := Int.lt_of_le_of_lt short (by decide)
  refine ⟨_, by rw [ofSeconds?_eq limit fits, if_pos short], fun asks ordered => ?_⟩
  have room : 0 < max limit 1 := by omega
  have length : 0 < max (seconds : Int) 1 * Instant.nanosPerSecond := by
    unfold Instant.nanosPerSecond
    omega
  exact ((Gate.kept_start (max limit 1) _).bounded_of_play room length ordered (by simp)).opening

theorem allowed_of_not_short {limit seconds : Nat} (fits : (seconds : Int) < 2 ^ 64) (long : longest < seconds)
    (valid : ofSeconds? limit seconds = some q) {asks : List Ask} (ordered : asks.Pairwise (·.now ≤ ·.now)) :
    ∀ r ∈ (Gate.play ⟨q, []⟩ asks).log, r.allowed = true := by
  rw [ofSeconds?_eq limit fits, if_neg (Int.not_le.2 long)] at valid
  split at valid <;> cases valid
  cases asks with
  | nil => simp [Gate.play]
  | cons a asks =>
    have idle (limit : Nat) (window : Int) : Idle ⟨limit, window, ∅⟩ a.now := fun _ _ _ => rfl
    refine Gate.allowed_of_idle (idle _ _) ?lapsed ?room ordered (Ask.le_of_mem ordered) (by simp)
    case lapsed =>
      simp only [Instant.nanosPerSecond]
      omega
    case room =>
      simp only
      omega

/-- If everything is allowed, more than a limit can be had at once. -/
theorem exists_not_limited (limit : Nat) {length : Int} (positive : 0 < length)
    (all : ∀ asks : List Ask, asks.Pairwise (·.now ≤ ·.now) → ∀ r ∈ (Gate.play ⟨q, []⟩ asks).log, r.allowed = true) :
    ∃ asks : List Ask, asks.Pairwise (·.now ≤ ·.now) ∧ ¬Limited limit length (Gate.play ⟨q, []⟩ asks).log := by
  -- one user asks once more than the limit, all at one instant
  let a : Ask := ⟨⟨0⟩, ⟨0, false⟩⟩
  have ordered : (List.replicate (limit + 1) a).Pairwise (·.now ≤ ·.now) :=
    List.pairwise_replicate.2 (.inr (Instant.le_refl _))
  have calls := Gate.map_log_play ⟨q, []⟩ (List.replicate (limit + 1) a)
  rw [List.reverse_replicate, List.map_nil, List.append_nil] at calls
  have log : (Gate.play ⟨q, []⟩ (List.replicate (limit + 1) a)).log = List.replicate (limit + 1) ⟨a, true⟩ := by
    obtain ⟨length, own⟩ := List.eq_replicate_iff.1 calls
    refine List.eq_replicate_iff.2 ⟨by simpa using length, fun r listed => ?_⟩
    rw [← own _ (List.mem_map_of_mem listed), ← all _ ordered r listed]
  refine ⟨_, ordered, fun limited => ?_⟩
  rw [log] at limited
  have count := limited _ ⟨a, true⟩ [] List.replicate_succ' (by simp)
  have given : given (List.replicate (limit + 1) ⟨a, true⟩) a.user = List.replicate (limit + 1) a.now := by simp [Quota.given]
  rw [given, List.countP_replicate, if_pos ?now] at count
  case now =>
    simp only [decide_eq_true_eq]
    omega
  omega

end Quota

/-! ## The settings -/

namespace Settings

variable {env : Environment} {s : Settings}

theorem holds_of_number {name : String} {w : Text.Width} {default n : Int} (least : w.least ≤ 0) (greatest : 0 ≤ w.greatest)
    (fits : w.holds default = true) (eq : number env name w default = .ok n) : w.holds n = true := by
  unfold number at eq
  split at eq
  · cases eq
    exact fits
  · rename_i text given
    cases read : Text.Integer.read w text.toList with
    | error fault =>
      rw [read] at eq
      cases eq
    | ok m =>
      rw [read] at eq
      cases eq
      exact Text.Integer.holds_of_read least greatest read

/-- The window of settings that are read is an unsigned 64-bit number. -/
theorem window_of_read (eq : read env = .ok s) : 0 ≤ s.createWindow ∧ s.createWindow < 2 ^ 64 := by
  unfold read at eq
  obtain ⟨_, -, eq⟩ := exists_of_bind_eq_ok eq
  obtain ⟨_, -, eq⟩ := exists_of_bind_eq_ok eq
  obtain ⟨_, -, eq⟩ := exists_of_bind_eq_ok eq
  obtain ⟨_, -, eq⟩ := exists_of_bind_eq_ok eq
  obtain ⟨_, -, eq⟩ := exists_of_bind_eq_ok eq
  obtain ⟨n, window, eq⟩ := exists_of_bind_eq_ok eq
  cases eq
  obtain ⟨least, greatest⟩ := Text.Width.holds_iff.1 (holds_of_number (by decide) (by decide) (by decide) window)
  exact ⟨least, Int.lt_add_one_of_le greatest⟩

end Settings

namespace Startup

/-- **Which settings limit anything.** Up to the longest length of time, users get no more sessions than the limit in the window
after their first call, where a limit and a window of zero count as one; and with no other window. Beyond there is no quota at all,
or it allows everything. -/
theorem limited_iff {env : Environment} {s : Settings} (read : Settings.read env = .ok s) :
    ((∃ q, quota? s = some q ∧ ∀ asks : List Quota.Ask, asks.Pairwise (·.now ≤ ·.now) →
        Quota.Limited (max s.createLimit.toNat 1) (max s.createWindow 1 * Instant.nanosPerSecond)
          (Quota.Gate.play ⟨q, []⟩ asks).log) ↔ s.createWindow ≤ Quota.longest) ∧
      (quota? s = none ↔ Quota.longest < s.createWindow ∧ s.createWindow < 2 ^ 64 - Quota.longest) ∧
      ∀ q, quota? s = some q → Quota.longest < s.createWindow → ∀ asks : List Quota.Ask, asks.Pairwise (·.now ≤ ·.now) →
        ∀ r ∈ (Quota.Gate.play ⟨q, []⟩ asks).log, r.allowed = true := by
  obtain ⟨nonneg, fits⟩ := Settings.window_of_read read
  have seconds : (s.createWindow.toNat : Int) = s.createWindow := Int.toNat_of_nonneg nonneg
  unfold quota?
  rw [← seconds] at fits ⊢
  rw [Int.toNat_natCast]
  generalize s.createWindow.toNat = window at fits ⊢
  refine ⟨⟨?limits, Quota.limited_of_short _⟩, ?none, ?free⟩
  case free => exact fun q valid long asks ordered => Quota.allowed_of_not_short fits long valid ordered
  case limits =>
    rintro ⟨q, valid, limited⟩
    by_contra long
    have length : 0 < max (window : Int) 1 * Instant.nanosPerSecond := by
      unfold Instant.nanosPerSecond
      omega
    obtain ⟨asks, ordered, exceeded⟩ := Quota.exists_not_limited (max s.createLimit.toNat 1) length fun asks ordered =>
      Quota.allowed_of_not_short fits (Int.not_le.1 long) valid ordered
    exact exceeded (limited asks ordered)
  case none =>
    rw [Quota.ofSeconds?_eq _ fits]
    split
    · rename_i short
      simp [Int.not_lt.2 short]
    · rename_i long
      split <;> simp_all

/-- The names that have to be there, and a limit and a window in seconds. -/
def Sample.asking (limit window : String) : Environment
  | "SESSION_CREATE_LIMIT" => some limit
  | "SESSION_CREATE_WINDOW_SECS" => some window
  | "SERVER_ADDRESS" | "DATABASE_URL" | "JWT_SECRET" => some ""
  | _ => none

/-- An hour is a window. The greatest signed number is too long, and the greatest unsigned one is minus one. -/
theorem limited_iff_of_hour :
    (∃ s, Settings.read (Sample.asking "2" "3600") = .ok s ∧ ∃ q, quota? s = some q ∧
      ∀ asks : List Quota.Ask, asks.Pairwise (·.now ≤ ·.now) →
        Quota.Limited 2 (3600 * Instant.nanosPerSecond) (Quota.Gate.play ⟨q, []⟩ asks).log) ∧
      (∃ s, Settings.read (Sample.asking "2" "9223372036854775807") = .ok s ∧ quota? s = none) ∧
      ∃ s, Settings.read (Sample.asking "2" "18446744073709551615") = .ok s ∧ quota? s ≠ none ∧
        ∀ q, quota? s = some q → ∀ asks : List Quota.Ask, asks.Pairwise (·.now ≤ ·.now) →
          ∀ r ∈ (Quota.Gate.play ⟨q, []⟩ asks).log, r.allowed = true := by
  have hour : Settings.read (Sample.asking "2" "3600") = .ok ⟨"", "", "", 20, 2, 3600, false⟩ := by decide
  have long : Settings.read (Sample.asking "2" "9223372036854775807") =
      .ok ⟨"", "", "", 20, 2, 9223372036854775807, false⟩ := by decide
  have wrapped : Settings.read (Sample.asking "2" "18446744073709551615") =
      .ok ⟨"", "", "", 20, 2, 18446744073709551615, false⟩ := by decide
  refine ⟨⟨_, hour, (limited_iff hour).1.2 (by decide)⟩, ⟨_, long, (limited_iff long).2.1.2 (by decide)⟩, _, wrapped, ?_⟩
  exact ⟨by decide, fun q valid => (limited_iff wrapped).2.2 q valid (by decide)⟩

/-- Not all settings that are read limit anything: two calls at one instant against a limit of one. -/
theorem not_limited_always :
    ¬∀ env s, Settings.read env = .ok s → ∃ q, quota? s = some q ∧
      ∀ asks : List Quota.Ask, asks.Pairwise (·.now ≤ ·.now) →
        Quota.Limited (max s.createLimit.toNat 1) (max s.createWindow 1 * Instant.nanosPerSecond)
          (Quota.Gate.play ⟨q, []⟩ asks).log := by
  intro all
  have wrapped : Settings.read (Sample.asking "1" "18446744073709551615") =
      .ok ⟨"", "", "", 20, 1, 18446744073709551615, false⟩ := by decide
  obtain ⟨q, valid, limited⟩ := all _ _ wrapped
  obtain rfl : ⟨1, -1000000000, ∅⟩ = q := Option.some.inj valid
  let a : Quota.Ask := ⟨⟨1⟩, ⟨0, false⟩⟩
  have twice : (Quota.Gate.play ⟨⟨1, -1000000000, ∅⟩, []⟩ [a, a]).log = [⟨a, true⟩, ⟨a, true⟩] := rfl
  have count := limited [a, a] (by decide) [⟨a, true⟩] ⟨a, true⟩ [] twice (by simp)
  rw [twice] at count
  exact absurd count (by decide)

end Startup

end Proctor
