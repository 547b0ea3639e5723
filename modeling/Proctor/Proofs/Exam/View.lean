import Proctor.Proofs.Call.Interference
import Proctor.Proofs.Exam.Fair

/-!
# A caller's view

The world together with what one caller has done so far: others may change the tables between any
two of its deeds. The call of a caller gives a true account (`Accounts`) when an error that names
the state of a session is about the session that the caller had found, and a value has what is
promised of it. Rules for the parts of a call follow; what the parts have in common is lasting
(`View.Lasting`), so that it is carried over any access by `accounts_keep`.
-/

set_option autoImplicit false

namespace Proctor

/-- The answer is what the payload says to the question of the slot, with its grade. -/
def Catalog.Reads (c : Catalog) (slot : Slot) (payload : Json.Value) (a : Answer) : Prop :=
  ∃ question details, c.get? slot.question = some question ∧ question.detailsFor slot.kind = .ok details ∧
    details.accept payload = .ok a.value ∧ a.isCorrect = details.grades a.value

namespace Deed

/-- The session that the deed found by its token. -/
def found? (d : Deed) : Option Int :=
  match d.access with
  | .findByToken token => (d.before.tables.findByToken? token).map (·.id)
  | _ => none

/-- The deed stored the answer `a` that the payload gives, for the slot with this sequence of the session that had
the token, and the receipt tells of it. -/
structure Answers (d : Deed) (token : String) (sequence : Int) (payload : Json.Value) (receipt : Exam.Receipt) (s : Session)
    (slot : Slot) (a : Answer) : Prop where
  access : d.access = .record a
  taken : d.before.tables.takesAnswer a.slot a.answeredAt = true
  found : d.before.tables.findByToken? token = some s
  listed : slot ∈ d.before.tables.slotsOf s.id
  numbered : slot.sequence = sequence
  slot_eq : a.slot = slot.id
  reads : d.before.catalog.Reads slot payload a
  receipt_eq : receipt = ⟨sequence, a.isCorrect, a.answeredAt⟩

end Deed

/-- The session that a caller found first, by its deeds, the latest first. -/
def subject? : List Deed → Option Int
  | [] => none
  | d :: older => (subject? older).or d.found?

theorem subject?_of_suffix {older deeds : List Deed} (suffix : older <:+ deeds) {id : Int} (h : subject? older = some id) :
    subject? deeds = some id := by
  obtain ⟨newer, rfl⟩ := suffix
  induction newer with
  | nil => exact h
  | cons d newer ih =>
    show (subject? (newer ++ older)).or d.found? = some id
    rw [ih]
    rfl

/-- The state that the error says that a session is in. -/
def Error.told? : Error → Option Status
  | .timeout _ => some .timeout
  | .state (.closed status) => some status
  | .state (.notCancellable status) => some status
  | _ => none

/-- No access fails with an error that names the state of a session. -/
theorem World.told?_of_handle {w : World} {q : Access} {e : Error} (h : (w.handle q).1 = .error e) : e.told? = none := by
  cases q with
  | create terms drawn =>
    obtain ⟨_, eq⟩ | ⟨_, eq⟩ := w.tables.create_cases terms drawn <;> simp only [handle, eq] at h <;> cases h
    rfl
  | markTimedOut id now =>
    obtain ⟨_, eq⟩ | ⟨_, _, _, eq⟩ | ⟨_, _, _, eq⟩ := w.tables.markTimedOut_cases id now <;>
      simp only [handle, eq] at h <;> cases h
    rfl
  | question id =>
    simp only [handle] at h
    split at h <;> cases h
    rfl
  | _ => cases h

theorem World.get?_of_handle {w v : World} {id : Int} {question : Question}
    (h : w.handle (.question id) = (.ok question, v)) : w.catalog.get? id = some question := by
  simp only [handle] at h
  split at h <;> cases h
  assumption

/-- The world with what one caller has done so far, the latest first. -/
structure View where
  world : World
  deeds : List Deed

namespace View

def tables (v : View) : Tables := v.world.tables

/-- Carries out one access of caller `i`. -/
def handle (i : Nat) : Call.Handler View := fun q v =>
  ((v.world.handle q).1, ⟨(v.world.handle q).2, ⟨i, v.world, q⟩ :: v.deeds⟩)

/-- Only others have done something. -/
structure Rests (v u : View) : Prop extends v.world.Follows u.world where
  deeds : u.deeds = v.deeds

/-- Anybody has done something. -/
structure Grows (v u : View) : Prop extends v.world.Follows u.world where
  deeds : v.deeds <:+ u.deeds

/-- What holds of a view holds whatever is done. -/
def Lasting (inv : View → Prop) : Prop := ∀ v u : View, v.Grows u → inv v → inv u

/-- The caller found this session by its token, and it was stored like this then or later. -/
structure Knows (v : View) (s : Session) : Prop where
  recalls : v.tables.Recalls s
  subject : subject? v.deeds = some s.id

/-- The last deed of the caller stored an answer, of which the receipt tells. -/
def Answered (v : View) (token : String) (sequence : Int) (payload : Json.Value) (receipt : Exam.Receipt) : Prop :=
  ∃ d older s slot a, v.deeds = d :: older ∧ d.Answers token sequence payload receipt s slot a

/-- The caller removed the session that it had found. -/
def Cancelled (v : View) : Prop := ∃ id, subject? v.deeds = some id ∧ ∃ d ∈ v.deeds, d.Removes id

variable {v u : View} {s : Session}

theorem handle_eq {i : Nat} {q : Access} {r : Except Error q.Answer} (h : handle i q v = (r, u)) :
    v.world.handle q = (r, u.world) ∧ u.deeds = ⟨i, v.world, q⟩ :: v.deeds := by
  cases h
  exact ⟨rfl, rfl⟩

theorem Rests.grows (h : v.Rests u) : v.Grows u := ⟨h.toFollows, h.deeds ▸ List.suffix_rfl⟩

theorem Rests.trans {w : View} (valid : v.tables.Valid) (vu : v.Rests u) (uw : u.Rests w) : v.Rests w :=
  ⟨vu.toFollows.trans valid uw.toFollows, uw.deeds.trans vu.deeds⟩

theorem grows_handle {i : Nat} {q : Access} (valid : v.tables.Valid) (fair : q.Fair v.tables) : v.Grows (handle i q v).2 :=
  ⟨World.follows_handle valid fair, List.suffix_cons _ _⟩

/-- The catalog does not change. -/
theorem lasting_catalog (p : Catalog → Prop) : Lasting fun v => p v.world.catalog := by
  intro v u grows holds
  rwa [grows.catalog]

theorem lasting_recalls (s : Session) : Lasting fun v => v.tables.Recalls s := fun _ _ grows recalls =>
  recalls.later grows.follows.evolves

theorem lasting_recallsSlot (slot : Slot) : Lasting fun v => v.tables.RecallsSlot slot := fun _ _ grows recalls =>
  recalls.later grows.follows

theorem lasting_subject (id : Int) : Lasting fun v => subject? v.deeds = some id := fun _ _ grows subject =>
  subject?_of_suffix grows.deeds subject

theorem lasting_knows (s : Session) : Lasting fun v => v.Knows s := fun v u grows known =>
  ⟨lasting_recalls s v u grows known.recalls, lasting_subject s.id v u grows known.subject⟩

theorem Lasting.and {p q : View → Prop} (hp : Lasting p) (hq : Lasting q) : Lasting fun v => p v ∧ q v :=
  fun v u grows h => ⟨hp v u grows h.1, hq v u grows h.2⟩

end View

namespace Exam

open Call

/-- The outcome is not an error that names the state of a session. -/
def Silent {α : Type} (r : Except Error α) : Prop := ∀ e, r = .error e → e.told? = none

section Silent

variable {α β : Type}

theorem silent_ok (a : α) : Silent (.ok a) := fun _ h => by cases h

theorem silent_bind {r : Except Error α} {f : α → Except Error β} (first : Silent r) (second : ∀ a, Silent (f a)) :
    Silent (r >>= f) := by
  cases r with
  | ok a => exact second a
  | error e => exact fun _ h => first _ (by cases h; rfl)

theorem silent_mapM {f : α → Except Error β} (each : ∀ a, Silent (f a)) (l : List α) : Silent (l.mapM f) := by
  induction l with
  | nil => exact silent_ok []
  | cons a l ih =>
    rw [List.mapM_cons]
    exact silent_bind (each a) fun b => silent_bind ih fun bs => silent_ok (b :: bs)

theorem silent_detailsFor (q : Question) (kind : Kind) : Silent (q.detailsFor kind) := by
  unfold Question.detailsFor
  split
  · exact silent_ok q.details
  · exact fun _ h => by cases h; rfl

theorem silent_mapError_input (r : Except InputFault α) : Silent (r.mapError .input) := by
  cases r with
  | ok a => exact silent_ok a
  | error f => exact fun _ h => by cases h; rfl

theorem silent_questionOf (j : Joined) (slot : Slot) : Silent (j.questionOf slot) := by
  unfold Joined.questionOf
  split
  · exact silent_ok _
  · exact fun _ h => by cases h; rfl

theorem silent_sheetItem (j : Joined) (slot : Slot) : Silent (j.sheetItem slot) :=
  silent_bind (silent_questionOf j slot) fun _ => silent_ok _

theorem silent_reviewItem (j : Joined) (slot : Slot) : Silent (j.reviewItem slot) :=
  silent_bind (silent_questionOf j slot) fun q => silent_bind (silent_detailsFor q slot.kind) fun _ => silent_ok _

theorem silent_draw (pool : List PoolEntry) (count : Nat) (words : List UInt32) : Silent (Draw.draw pool count words) := by
  unfold Draw.draw
  dsimp only
  split
  · exact fun _ h => by cases h; rfl
  split
  · exact fun _ h => by cases h; rfl
  · exact silent_ok _

end Silent

/-- A value has `mid`; an error names no state but that of a session that the caller knows. -/
def Tells {α : Type} (mid : α → View → Prop) : Except Error α → View → Prop
  | .ok a, v => mid a v
  | .error e, v => ∀ status, e.told? = some status → ∃ s, v.Knows s ∧ s.status = status

/-- Among others, the call of caller `i` makes only fair accesses and gives a true account. -/
abbrev Accounts {α : Type} (i : Nat) (mid : α → View → Prop) (c : Call α) (v : View) : Prop :=
  c.Meets (View.handle i) View.Rests View.Grows (Tells mid) v

section Rules

variable {α β : Type} {i : Nat} {v : View}

theorem tells_error {mid : α → View → Prop} {e : Error} (silent : e.told? = none) : Tells mid (.error e) v := by
  intro status told
  rw [silent] at told
  cases told

theorem accounts_imp {mid post : α → View → Prop} {c : Call α} (h : Accounts i mid c v)
    (weaker : ∀ a u, mid a u → post a u) : Accounts i post c v := by
  refine h.imp ?_
  rintro (e | a) u told
  · exact told
  · exact weaker a u told

theorem accounts_bind {mid : α → View → Prop} {post : β → View → Prop} {c : Call α} {f : α → Call β}
    (first : Accounts i mid c v) (second : ∀ a u, mid a u → Accounts i post (f a) u) : Accounts i post (c >>= f) v :=
  meets_bind first second fun _ _ told => told

/-- What is lasting is there after the call as well. -/
theorem accounts_keep {mid : α → View → Prop} {inv : View → Prop} {c : Call α} (lasting : View.Lasting inv) (here : inv v)
    (h : Accounts i mid c v) : Accounts i (fun a u => inv u ∧ mid a u) c v := by
  refine (Meets.carry h here (fun u w holds rests => lasting u w rests.grows holds) fun u w holds grows =>
    lasting u w grows holds).imp ?_
  rintro (e | a) u ⟨holds, told⟩
  · exact told
  · exact ⟨holds, told⟩

theorem accounts_ask {q : Access} (fair : ∀ u : View, v.Rests u → q.Fair u.tables) :
    Accounts i (fun answer w => ∃ u : View, v.Rests u ∧ u.Grows w ∧ View.handle i q u = (.ok answer, w)) (ask q) v := by
  intro u rests
  have grows : u.Grows (View.handle i q u).2 := View.grows_handle rests.follows.valid (fair u rests)
  refine ⟨grows, ?_⟩
  split
  · rename_i answer w eq
    rw [eq] at grows
    exact ⟨u, rests, grows, eq⟩
  · rename_i e w eq
    exact tells_error (World.told?_of_handle (congrArg Prod.fst eq))

/-- An access that any caller may make, of which only the answer matters. -/
theorem accounts_asked {q : Access} (fair : ∀ t, q.Fair t) : Accounts i (fun _ _ => True) (ask q) v :=
  accounts_imp (accounts_ask fun u _ => fair u.tables) fun _ _ _ => trivial

theorem accounts_now : Accounts i (fun _ _ => True) Call.now v := accounts_asked fun _ => trivial

theorem accounts_ofExcept {r : Except Error α} (silent : Silent r) :
    Accounts i (fun a u => r = .ok a ∧ u = v) (ofExcept r) v := by
  cases r with
  | ok a => exact ⟨rfl, rfl⟩
  | error e => exact tells_error (silent e rfl)

theorem accounts_orFail {e : Error} {a? : Option α} (silent : e.told? = none) :
    Accounts i (fun a u => a? = some a ∧ u = v) (orFail e a?) v := by
  cases a? with
  | some a => exact ⟨rfl, rfl⟩
  | none => exact tells_error silent

theorem accounts_failed {mid : α → View → Prop} {e : Error} (silent : e.told? = none) : Accounts i mid (failed e) v :=
  tells_error silent

/-- Whoever gives a true account leaves a world that can follow, at each access. -/
theorem follows_of_accounts {mid : α → View → Prop} {c : Call α} (h : Accounts i mid c v) :
    c.Meets World.handle World.Follows World.Follows (fun _ _ => True) v.world := by
  induction c generalizing v with
  | done a => trivial
  | failed e => trivial
  | step q next ih =>
    intro u changed
    obtain ⟨grows, rest⟩ := h.resume (u := ⟨u, v.deeds⟩) ⟨changed, rfl⟩
    refine ⟨grows.toFollows, ?_⟩
    split
    · rename_i answer w eq
      simp only [View.handle, eq] at rest
      exact ih answer rest
    · trivial

end Rules

end Exam

end Proctor
