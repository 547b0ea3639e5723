import Proctor.Proofs.Course.Scoring
import Proctor.Proofs.Http.Handling
import Proctor.Proofs.Store.Origin
import Mathlib.Data.List.Induction

/-!
# Visits to the service

Requests arrive one after the other, each at some instants of a clock that may show anything. A decoder says from a secret, the
time and the text of a bearer token what the token claims, if anything; nothing else is known of it. Whatever the requests are,
each of them is `Guarded`: sessions are opened and the quota is asked only for users who apply, sessions are listed only for
administrators, and who is turned away has changed no table (`guarded_play`).
-/

set_option autoImplicit false

namespace Proctor

/-- The user for whom the access asks the quota. -/
def Access.asked? : Access → Option Uuid
  | .allowCreate user => some user
  | _ => none

theorem Access.Opens.asked?_eq_none {user : Uuid} {q : Access} (opens : q.Opens user) : q.asked? = none := by
  cases q with
  | allowCreate => cases opens
  | _ => rfl

/-- The quota changes only when it is asked. -/
theorem World.quota_handle {q : Access} (silent : q.asked? = none) (w : World) : (w.handle q).2.quota = w.quota := by
  cases q with
  | allowCreate => cases silent
  | question id =>
    simp only [handle]
    split <;> rfl
  | _ => rfl

namespace Ticking

variable {α : Type} {c : Call α} {w : Ticking}

/-- The quota has been asked for a session of the user. -/
def asked (w : Ticking) (user : Uuid) : Ticking :=
  { w with world := { w.world with quota := (Quota.ask w.world.quota user w.world.now).2 } }

theorem quota_ready (w : Ticking) (q : Access) : (w.ready q).world.quota = w.world.quota := by
  cases q <;> rfl

theorem quota_run (silent : c.Only fun q => q.asked? = none) : (c.run handle w).2.world.quota = w.world.quota := by
  refine silent.keeps_run (fun v : Ticking => v.world.quota = w.world.quota) (fun q v silent same => ?_) rfl
  exact (World.quota_handle silent _).trans ((v.quota_ready q).trans same)

theorem filterMap_accesses (silent : c.Only fun q => q.asked? = none) : (c.accesses handle w).filterMap Access.asked? = [] :=
  List.filterMap_eq_nil_iff.2 fun _ => silent.of_mem_accesses

/-- A session that there is after a call was there before with the same terms, or the call may open one on these terms. -/
theorem terms_run {p : Access → Prop} (only : c.Only p) {id : Int} {s : Session}
    (stored : (c.run handle w).2.world.tables.find? id = some s) :
    (∃ r, w.world.tables.find? id = some r ∧ r.toTerms = s.toTerms) ∨ ∃ drawn, p (.create s.toTerms drawn) := by
  let known (v : Ticking) : Prop := ∀ {s}, v.world.tables.find? id = some s →
    (∃ r, w.world.tables.find? id = some r ∧ r.toTerms = s.toTerms) ∨ ∃ drawn, p (.create s.toTerms drawn)
  have kept (q : Access) (v : Ticking) (made : p q) (here : known v) : known (handle q v).2 := by
    intro s stored
    obtain ⟨r, before, same⟩ | ⟨drawn, rfl⟩ := World.terms_handle (w := (v.ready q).world) stored
    · rw [tables_ready] at before
      exact same ▸ here before
    · exact .inr ⟨drawn, made⟩
  exact only.keeps_run known kept (fun stored => .inl ⟨_, stored, rfl⟩) stored

end Ticking

namespace Http

open Call

/-- Says what a bearer token claims, from a secret, what the clock shows, and the text of the token. -/
abbrev Decoder := String → Instant → String → Option Claims

/-- A request that arrives, with what the clock shows meanwhile. -/
structure Visit where
  message : Message
  chance : Chance
  /-- The instant at which the bearer token is looked at. -/
  decoded : Instant
  /-- The instant at which the quota is asked. -/
  asked : Instant
  /-- The instants that are read otherwise. -/
  clock : Nat → Instant

/-- What came of a visit. -/
structure Visited where
  reply : Reply
  world : World
  /-- In the order in which they were made. -/
  accesses : List Access

/-- The world as the visit finds it. -/
def Visit.arrival (v : Visit) (w : World) : Ticking := ⟨{ w with now := v.asked }, v.clock⟩

section Receiving

variable (decode : Decoder) (secret : String)

/-- Serves the request from its first access to its last. -/
def receive (w : World) (v : Visit) : Visited :=
  let check := decode secret v.decoded
  let (reply, after) := serve Ticking.handle check v.chance v.message (v.arrival w)
  ⟨reply, after.world, (callOf check v.chance v.message).accesses Ticking.handle (v.arrival w)⟩

/-- Receives visits one after the other. -/
def play (w : World) (visits : List Visit) : World := visits.foldl (fun w v => (receive decode secret w v).world) w

/-- The visit applies for a session of the user, and the quota grants it. -/
def Granted (w : World) (v : Visit) (user : Uuid) : Prop :=
  (∃ r, Applies (decode secret v.decoded) v.message user r) ∧ (Quota.ask w.quota user v.asked).1 = true

/-- How the service is guarded when it receives the visit. -/
structure Guarded (w : World) (v : Visit) : Prop where
  /-- A session that is there afterwards was there before, or is one for whose user the visit was granted a session. -/
  added : ∀ {id s}, (receive decode secret w v).world.tables.find? id = some s →
    (∃ r, w.tables.find? id = some r ∧ r.toTerms = s.toTerms) ∨ Granted decode secret w v s.user
  /-- Sessions are looked up for a listing only on its path, and for an administrator. -/
  listed : ∀ {f}, Access.list f ∈ (receive decode secret w v).accesses →
    v.message.pathAndQuery.1 = "/api/admin/sessions".toList ∧ Administers (decode secret v.decoded) v.message
  /-- The listing is shown only to an administrator. -/
  shown : v.message.method = "GET" → v.message.pathAndQuery.1 = "/api/admin/sessions".toList →
    (receive decode secret w v).reply.status = 200 → Administers (decode secret v.decoded) v.message
  /-- Who is turned away has changed no table. -/
  refused : (receive decode secret w v).reply.status ∈ refusals → (receive decode secret w v).world.tables = w.tables
  /-- The quota is asked once if somebody applies, whatever comes of it. -/
  asked : ∀ {user r}, Applies (decode secret v.decoded) v.message user r →
    (receive decode secret w v).accesses.filterMap Access.asked? = [user] ∧
      (receive decode secret w v).world.quota = (Quota.ask w.quota user v.asked).2
  /-- Who applies and is not granted a session is turned away. -/
  denied : ∀ {user r}, Applies (decode secret v.decoded) v.message user r → (Quota.ask w.quota user v.asked).1 = false →
    (receive decode secret w v).reply.status = 429
  /-- If nobody applies, the quota is not touched. -/
  unasked : (∀ user r, ¬Applies (decode secret v.decoded) v.message user r) →
    (receive decode secret w v).accesses.filterMap Access.asked? = [] ∧ (receive decode secret w v).world.quota = w.quota

end Receiving

variable {decode : Decoder} {secret : String} {w : World} {v : Visit} {user : Uuid} {r : Request} {chance : Chance}

/-- What is shown of a reply has its status. -/
theorem status_receive : (receive decode secret w v).reply.status =
    (Reply.ofExcept ((callOf (decode secret v.decoded) v.chance v.message).run Ticking.handle (v.arrival w)).1).status := by
  simp only [receive, serve]
  split <;> rfl

theorem world_receive : (receive decode secret w v).world =
    ((callOf (decode secret v.decoded) v.chance v.message).run Ticking.handle (v.arrival w)).2.world := rfl

theorem play_concat (w : World) (visits : List Visit) (v : Visit) :
    play decode secret w (visits ++ [v]) = (receive decode secret (play decode secret w visits) v).world := by
  simp [play]

theorem run_admission (a : Ticking) : (admission user r chance).run Ticking.handle a =
    if (Quota.ask a.world.quota user a.world.now).1 then (opening user r chance).run Ticking.handle (a.asked user)
    else (.error (.quota .tooMany), a.asked user) := by
  show Call.run Ticking.handle (if (Quota.ask a.world.quota user a.world.now).1 then _ else _) (a.asked user) = _
  split <;> rfl

theorem accesses_admission (a : Ticking) : (admission user r chance).accesses Ticking.handle a =
    .allowCreate user :: if (Quota.ask a.world.quota user a.world.now).1 then
      (opening user r chance).accesses Ticking.handle (a.asked user) else [] := by
  show _ :: Call.accesses Ticking.handle (if (Quota.ask a.world.quota user a.world.now).1 then _ else _) (a.asked user) = _
  split <;> rfl

theorem silent_opening (user : Uuid) (r : Request) (chance : Chance) :
    (opening user r chance).Only fun q => q.asked? = none :=
  (only_opening user r chance).imp fun _ => Access.Opens.asked?_eq_none

/-- Nobody applies, so nothing that is permitted asks the quota. -/
theorem silent_of_not_applies {check : String → Option Claims} {m : Message} (chance : Chance)
    (nobody : ∀ user r, ¬Applies check m user r) : (callOf check chance m).Only fun q => q.asked? = none := by
  refine (handling check chance m).only.imp fun q permitted => ?_
  cases q with
  | allowCreate user =>
    obtain ⟨r, applies⟩ := permitted
    exact absurd applies (nobody user r)
  | _ => rfl

/-- **Every visit is guarded.** -/
theorem guarded (decode : Decoder) (secret : String) (w : World) (v : Visit) : Guarded decode secret w v where
  added := by
    intro id s stored
    rw [world_receive] at stored
    have permitted := (handling (decode secret v.decoded) v.chance v.message).only
    obtain before | ⟨drawn, r, applies⟩ := Ticking.terms_run permitted stored
    · exact .inl before
    rw [callOf_of_applies applies, run_admission] at stored
    split at stored
    · rename_i granted
      exact .inr ⟨⟨r, applies⟩, granted⟩
    · exact .inl ⟨s, stored, rfl⟩
  listed := fun made => (handling (decode secret v.decoded) v.chance v.message).only.of_mem_accesses made
  shown := by
    intro get path shown
    rw [status_receive] at shown
    exact (handling (decode secret v.decoded) v.chance v.message).administers get path shown
  refused := by
    intro refused
    rw [status_receive] at refused
    rw [world_receive]
    have sparing := (handling (decode secret v.decoded) v.chance v.message).sparing (v.arrival w).world
    have spared := Ticking.meets_run sparing (fun v q _ => v.tables_ready q) (fun _ _ kept => kept) trivial
    generalize (callOf (decode secret v.decoded) v.chance v.message).run Ticking.handle (v.arrival w) = outcome at refused spared
    obtain ⟨e | reply, after⟩ := outcome
    · obtain stored | unchanged := spared
      · exact absurd refused (not_mem_refusals_of_stored stored)
      · exact unchanged
    · exact absurd refused spared
  asked := by
    intro user r applies
    have silent := silent_opening user r v.chance
    simp only [receive, serve, callOf_of_applies applies, accesses_admission, run_admission]
    split
    · exact ⟨congrArg (user :: ·) (Ticking.filterMap_accesses silent), Ticking.quota_run silent⟩
    · exact ⟨rfl, rfl⟩
  denied := by
    intro user r applies denied
    change (Quota.ask (v.arrival w).world.quota user (v.arrival w).world.now).1 = false at denied
    rw [status_receive, callOf_of_applies applies, run_admission, denied]
    rfl
  unasked := by
    intro nobody
    have silent := silent_of_not_applies v.chance nobody
    exact ⟨Ticking.filterMap_accesses silent, Ticking.quota_run silent⟩

namespace Sample

/-- Signed with the secret `k` for the user of `Course.Sample`, until a minute after the start of 1970. -/
def token : String :=
  "eyJhbGciOiJIUzI1NiJ9.eyJzdWIiOiIwMDAwMDAwMC0wMDAwLTAwMDAtMDAwMC0wMDAwMDAwMDAwMDAiLCJleHAiOjYwfQ" ++
    ".Q1fy9RYdiIxm6jajNWAK7hMUfiZCh69B9ZwrH8k2kNw"

/-- Looks at the signature and at the time. -/
def verify : Decoder := fun secret now token => Bearer.verify secret (now.nanos / Instant.nanosPerSecond) token

/-- The bearer of the token applies for a session, which is to get this token of its own. -/
def posts (own : String) : Visit where
  message := ⟨"POST", "/api/sessions", some ("Bearer " ++ token), some "application/json",
    "\x7b\"subject_id\": 1, \"level_id\": 1, \"duration_minutes\": 30, \"question_count\": 1\x7d"⟩
  chance := ⟨own, []⟩
  decoded := ⟨0, false⟩
  asked := ⟨0, false⟩
  clock := fun _ => ⟨0, false⟩

/-- One session for each user in a minute. -/
def once : Option Quota := Quota.ofSeconds? 1 60

/-- The world after these visits. -/
def world (earlier : List Visit) : World := play verify "k" (.start Course.Sample.catalog ⟨0, false⟩ once) earlier

end Sample

end Http

end Proctor
