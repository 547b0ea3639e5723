import Mathlib.Algebra.Group.Int.Defs
import Proctor.Quota

/-!
# Asking a quota

Whoever asks, the windows of all users that have ended are dropped. A window that has ended would not be counted in any more, so of what is
stored only `live` matters, and what others ask for does not change it (`live_allow_of_ne`). A `Gate` answers calls one after another
and keeps a log of its answers.
-/

set_option autoImplicit false

namespace Proctor

/-- The window with one more session. -/
def Window.counting (w : Window) : Window := ⟨w.start, w.count + 1⟩

namespace Quota

variable {q : Quota} {user other : Uuid} {now later : Instant}

/-! ## One call -/

theorem runs_iff {w : Window} : q.runs now w = true ↔ now.nanos - w.start.nanos < q.window := decide_eq_true_iff

/-- A window that runs has run before. -/
theorem runs_of_le {w : Window} (le : now ≤ later) (runs : q.runs later w = true) : q.runs now w = true := by
  rw [runs_iff] at runs ⊢
  have := Instant.le_iff.1 le
  omega

/-- The window of a user that has not ended. -/
def live (q : Quota) (user : Uuid) (now : Instant) : Option Window := (q.windows.get? user).filter (q.runs now)

/-- The window that a session of a user is counted in. -/
def current (q : Quota) (user : Uuid) (now : Instant) : Window := (q.live user now).getD ⟨now, 0⟩

/-- The current window after the call. -/
def after (q : Quota) (user : Uuid) (now : Instant) : Window :=
  if (q.current user now).count < q.limit then (q.current user now).counting else q.current user now

theorem allow_eq (q : Quota) (user : Uuid) (now : Instant) :
    q.allow user now = (decide ((q.current user now).count < q.limit),
      ⟨q.limit, q.window, (q.windows.filter fun _ w => q.runs now w).insert user (q.after user now)⟩) := by
  have found : ((q.windows.filter fun _ w => q.runs now w).get? user).getD ⟨now, 0⟩ = q.current user now := by
    rw [Table.get?_filter, current, live]
  unfold allow after
  simp only [found]
  split
  · rename_i room
    simp [room, Window.counting]
  · rename_i full
    simp [full]

theorem allow_fst (q : Quota) (user : Uuid) (now : Instant) :
    (q.allow user now).1 = decide ((q.current user now).count < q.limit) := by rw [allow_eq]

@[simp] theorem limit_allow (q : Quota) (user : Uuid) (now : Instant) : (q.allow user now).2.limit = q.limit := by rw [allow_eq]

@[simp] theorem window_allow (q : Quota) (user : Uuid) (now : Instant) : (q.allow user now).2.window = q.window := by rw [allow_eq]

theorem runs_allow (q : Quota) (user : Uuid) (now later : Instant) : (q.allow user now).2.runs later = q.runs later := by
  funext w
  simp [runs]

theorem live_allow (q : Quota) (user : Uuid) (now later : Instant) :
    (q.allow user now).2.live user later = (some (q.after user now)).filter (q.runs later) := by
  rw [live, runs_allow, allow_eq, Table.get?_insert, if_pos rfl]

/-- **What others ask for is not seen.** -/
theorem live_allow_of_ne (ne : other ≠ user) (le : now ≤ later) : (q.allow user now).2.live other later = q.live other later := by
  have narrower : (fun w => q.runs now w && q.runs later w) = q.runs later := by
    funext w
    exact Bool.eq_iff_iff.2 (by simpa using runs_of_le le)
  rw [live, runs_allow, allow_eq, Table.get?_insert, if_neg ne, Table.get?_filter, Option.filter_filter, narrower, live]

/-- What becomes of a number of seconds. -/
theorem ofSeconds?_eq (limit : Nat) {seconds : Nat} (fits : (seconds : Int) < 2 ^ 64) :
    ofSeconds? limit seconds =
      if (seconds : Int) ≤ longest then some ⟨max limit 1, max (seconds : Int) 1 * Instant.nanosPerSecond, ∅⟩
      else if (seconds : Int) < 2 ^ 64 - longest then none
      else some ⟨max limit 1, (seconds - 2 ^ 64) * Instant.nanosPerSecond, ∅⟩ := by
  have signed : (max seconds 1 : Int).bmod 0x10000000000000000 =
      if (seconds : Int) < 2 ^ 63 then max (seconds : Int) 1 else seconds - 2 ^ 64 := by
    rw [Int.bmod_def, Int.emod_eq_of_lt (by omega) (by omega)]
    split <;> split <;> omega
  unfold ofSeconds?
  simp only [signed]
  unfold longest
  split
  · rename_i small
    split
    · rw [if_pos (by omega)]
    · rw [if_neg (by omega), if_pos (by omega)]
  · rename_i large
    rw [if_neg (by omega : ¬(seconds : Int) ≤ 9223372036854775)]
    split
    · rw [if_neg (by omega)]
    · rw [if_pos (by omega)]

/-- A limit of zero counts as one. -/
theorem ofSeconds?_eq_some (limit : Nat) {seconds : Nat} (positive : 1 ≤ seconds) (short : (seconds : Int) ≤ longest) :
    ofSeconds? limit seconds = some ⟨max limit 1, seconds * Instant.nanosPerSecond, ∅⟩ := by
  have fits : (seconds : Int) < 2 ^ 64 := Int.lt_of_le_of_lt short (by decide)
  rw [ofSeconds?_eq limit fits, if_pos short, Int.max_eq_left (by omega)]

/-! ## Calls one after another -/

/-- A user asks for a session. -/
structure Ask where
  user : Uuid
  now : Instant

/-- Of calls in order none is before the first. -/
theorem Ask.le_of_mem {a : Ask} {asks : List Ask} (ordered : (a :: asks).Pairwise (·.now ≤ ·.now)) :
    ∀ b ∈ a :: asks, a.now ≤ b.now := by
  intro b listed
  rcases List.mem_cons.1 listed with rfl | listed
  · exact Instant.le_refl _
  · exact (List.pairwise_cons.1 ordered).1 b listed

/-- A call with its answer. -/
structure Answered extends Ask where
  allowed : Bool

/-- A quota and what it has answered, latest first. -/
structure Gate where
  quota : Quota
  log : List Answered

namespace Gate

def take (g : Gate) (a : Ask) : Gate := ⟨(g.quota.allow a.user a.now).2, ⟨a, (g.quota.allow a.user a.now).1⟩ :: g.log⟩

def play (g : Gate) (asks : List Ask) : Gate := asks.foldl take g

@[simp] theorem limit_take (g : Gate) (a : Ask) : (g.take a).quota.limit = g.quota.limit := by simp [take]

@[simp] theorem window_take (g : Gate) (a : Ask) : (g.take a).quota.window = g.quota.window := by simp [take]

theorem log_take (g : Gate) (a : Ask) : (g.take a).log = ⟨a, (g.quota.allow a.user a.now).1⟩ :: g.log := rfl

end Gate

end Quota

end Proctor
