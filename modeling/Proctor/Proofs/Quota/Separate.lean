import Proctor.Proofs.Quota

/-!
# Users do not see each other in a quota

Every call drops the windows that have ended, also those of users who do not call, so what is stored for a user depends on the
others. But what matters to a user are the windows that run. Two quotas that have the same of these (`Alike`) answer the user
alike, and stay so when others call one of them. So a gate answers each user as if nobody else had called: `separate_play`.
-/

set_option autoImplicit false

namespace Proctor.Quota

/-- From now on the quotas know the same of a user. -/
structure Alike (user : Uuid) (now : Instant) (q q' : Quota) : Prop where
  limit : q.limit = q'.limit
  window : q.window = q'.window
  live : ∀ later, now ≤ later → q.live user later = q'.live user later

namespace Alike

variable {user other : Uuid} {now later : Instant} {q q' : Quota}

theorem refl (user : Uuid) (now : Instant) (q : Quota) : Alike user now q q := ⟨rfl, rfl, fun _ _ => rfl⟩

theorem of_le (h : Alike user now q q') (le : now ≤ later) : Alike user later q q' where
  limit := h.limit
  window := h.window
  live instant from_later := h.live instant (Instant.le_trans le from_later)

theorem current (h : Alike user now q q') : q.current user now = q'.current user now := by
  rw [Quota.current, Quota.current, h.live now (Instant.le_refl now)]

theorem answer (h : Alike user now q q') : (q.allow user now).1 = (q'.allow user now).1 := by
  rw [allow_fst, allow_fst, h.current, h.limit]

/-- A call of the user to both. -/
theorem allow (h : Alike user now q q') : Alike user now (q.allow user now).2 (q'.allow user now).2 where
  limit := by rw [limit_allow, limit_allow, h.limit]
  window := by rw [window_allow, window_allow, h.window]
  live instant _ := by
    have after : q.after user now = q'.after user now := by rw [Quota.after, Quota.after, h.current, h.limit]
    have runs : q.runs instant = q'.runs instant := by
      funext w
      rw [Quota.runs, Quota.runs, h.window]
    rw [live_allow, live_allow, after, runs]

/-- **A call of somebody else** to one of them, which may drop a window of the user that has ended. -/
theorem allow_of_ne (h : Alike user now q q') (ne : user ≠ other) : Alike user now (q.allow other now).2 q' where
  limit := by rw [limit_allow, h.limit]
  window := by rw [window_allow, h.window]
  live instant from_now := by rw [live_allow_of_ne ne from_now, h.live instant from_now]

end Alike

namespace Gate

/-- The second gate has been called by one user only, and has given this user the answers of the first. -/
structure Singles (user : Uuid) (now : Instant) (g alone : Gate) : Prop where
  quota : Alike user now g.quota alone.quota
  log : g.log.filter (·.user = user) = alone.log

namespace Singles

variable {user : Uuid} {now : Instant} {g alone : Gate} {a : Ask}

theorem take (h : Singles user now g alone) (own : a.user = user) (le : now ≤ a.now) :
    Singles user a.now (g.take a) (alone.take a) := by
  subst own
  have quota := h.quota.of_le le
  constructor
  · exact quota.allow
  · rw [log_take, log_take, List.filter_cons_of_pos (by simp), h.log, quota.answer]

theorem take_of_ne (h : Singles user now g alone) (ne : a.user ≠ user) (le : now ≤ a.now) :
    Singles user a.now (g.take a) alone := by
  constructor
  · exact (h.quota.of_le le).allow_of_ne ne.symm
  · rw [log_take, List.filter_cons_of_neg (by simpa using ne), h.log]

/-- **Any number of calls** to the first gate, and those of the user to the second. -/
theorem play (h : Singles user now g alone) {asks : List Ask} (ordered : asks.Pairwise (·.now ≤ ·.now))
    (latest : ∀ a ∈ asks, now ≤ a.now) :
    (g.play asks).log.filter (·.user = user) = (alone.play (asks.filter (·.user = user))).log := by
  induction asks generalizing now g alone with
  | nil => exact h.log
  | cons a asks ih =>
    obtain ⟨first, ordered⟩ := List.pairwise_cons.1 ordered
    have le : now ≤ a.now := latest a List.mem_cons_self
    by_cases own : a.user = user
    · rw [List.filter_cons_of_pos (by simpa using own)]
      exact ih (h.take own le) ordered first
    · rw [List.filter_cons_of_neg (by simpa using own)]
      exact ih (h.take_of_ne own le) ordered first

end Singles

end Gate

/-- **Users do not affect each other.** When calls come each no earlier than those before, the answers to one user are those that
the user gets if all calls of other users are left out. -/
theorem separate_play (limit : Nat) {seconds : Nat} (positive : 1 ≤ seconds) (short : (seconds : Int) ≤ longest)
    {asks : List Ask} (ordered : asks.Pairwise (·.now ≤ ·.now)) (user : Uuid) :
    ∃ q, ofSeconds? limit seconds = some q ∧
      (Gate.play ⟨q, []⟩ asks).log.filter (·.user = user) = (Gate.play ⟨q, []⟩ (asks.filter (·.user = user))).log := by
  refine ⟨_, ofSeconds?_eq_some limit positive short, ?_⟩
  cases asks with
  | nil => rfl
  | cons a asks =>
    have start (q : Quota) : Gate.Singles user a.now ⟨q, []⟩ ⟨q, []⟩ := ⟨.refl user a.now q, rfl⟩
    exact (start _).play ordered (Ask.le_of_mem ordered)

/-- With one session in a minute, a second user calls when the window of the first one has just ended, and drops it. Nothing is
stored for the first user then, but without that call the window is; the answers are the same. -/
theorem separate_play_of_dropped :
    let second (n : Int) : Instant := ⟨n * Instant.nanosPerSecond, false⟩
    let early : List Ask := [⟨⟨1⟩, second 0⟩, ⟨⟨1⟩, second 59⟩, ⟨⟨2⟩, second 60⟩]
    let asks : List Ask := early ++ [⟨⟨1⟩, second 61⟩, ⟨⟨1⟩, second 62⟩]
    asks.Pairwise (·.now ≤ ·.now) ∧ ∃ q, ofSeconds? 1 60 = some q ∧
      (Gate.play ⟨q, []⟩ early).quota.windows.get? ⟨1⟩ = none ∧
      (Gate.play ⟨q, []⟩ (early.filter (·.user = ⟨1⟩))).quota.windows.get? ⟨1⟩ = some ⟨second 0, 1⟩ ∧
      ((Gate.play ⟨q, []⟩ asks).log.filter (·.user = ⟨1⟩)).map (·.allowed) = [false, true, false, true] ∧
      (Gate.play ⟨q, []⟩ asks).log.filter (·.user = ⟨1⟩) = (Gate.play ⟨q, []⟩ (asks.filter (·.user = ⟨1⟩))).log := by
  intro second early asks
  have ordered : asks.Pairwise (·.now ≤ ·.now) := by decide
  obtain ⟨q, valid, same⟩ := @separate_play 1 60 (by decide) (by decide) asks ordered ⟨1⟩
  refine ⟨ordered, q, valid, ?_, ?_, ?_, same⟩
  all_goals
    obtain rfl := Option.some.inj (valid.symm.trans (ofSeconds?_eq_some 1 (by decide) (by decide)))
    decide

end Proctor.Quota
