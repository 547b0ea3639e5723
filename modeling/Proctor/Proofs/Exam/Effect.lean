import Proctor.Proofs.Exam.Plain

/-!
# What an operation does when it is alone

If only the clock moves meanwhile, an operation does what its result says
(`Operation.yields_call`): a new session was stored, an answer was written or removed, or
ongoing sessions were left alone. An operation that fails leaves them alone too.
-/

set_option autoImplicit false

namespace Proctor

/-- The tables are the same; the clock may have moved. -/
def World.Still (w v : World) : Prop := v.tables = w.tables

/-- Of the session of `token`, the slot with this sequence has got an answer with this grade, or
has lost its answer, and nothing else has changed. -/
inductive Tables.Marks (t : Tables) (token : String) (sequence : Int) (right : Bool) : Tables → Prop where
  | intro {s : Session} {slot : Slot} (a? : Option Answer) {answers : Table Int Answer}
      (found : t.findByToken? token = some s) (listed : slot ∈ t.slotsOf s.id) (numbered : slot.sequence = sequence)
      (graded : right = a?.any (·.isCorrect))
      (written : ∀ j, answers.get? j = if j = slot.id then a? else t.answers.get? j) :
      t.Marks token sequence right { t with answers := answers }

namespace Exam

open Call

/-- What came of a call has `mid`, or it is an error and ongoing sessions were left alone. -/
def Settles {α : Type} (t : Tables) (mid : α → World → Prop) : Except Error α → World → Prop
  | .ok a, v => mid a v
  | .error _, v => t.Quiet v.tables

/-- Carried out alone, the call gives a value with `mid`, or leaves the ongoing sessions of `t` alone. -/
abbrev Yields {α : Type} (t : Tables) (mid : α → World → Prop) (c : Call α) (w : World) : Prop :=
  c.Meets World.handle World.Still (fun _ _ => True) (Settles t mid) w

variable {α β : Type} {t : Tables} {w : World}

theorem yields_bind {mid : α → World → Prop} {post : β → World → Prop} {c : Call α} {f : α → Call β}
    (first : Yields t mid c w) (second : ∀ a v, mid a v → Yields t post (f a) v) : Yields t post (c >>= f) w :=
  meets_bind first second fun _ _ quiet => quiet

theorem yields_ofExcept {e : Except Error α} (quiet : t.Quiet w.tables) :
    Yields t (fun a v => e = .ok a ∧ v = w) (ofExcept e) w := by
  cases e with
  | ok a => exact ⟨rfl, rfl⟩
  | error e => exact quiet

theorem yields_orFail {e : Error} {a? : Option α} (quiet : t.Quiet w.tables) :
    Yields t (fun a v => a? = some a ∧ v = w) (orFail e a?) w := by
  cases a? with
  | some a => exact ⟨rfl, rfl⟩
  | none => exact quiet

/-- An access on its own. -/
theorem yields_ask {q : Access} {mid : q.Answer → World → Prop} (h : ∀ v : World, v.tables = w.tables →
    match v.handle q with
    | (.ok answer, u) => mid answer u
    | (.error _, u) => t.Quiet u.tables) : Yields t mid (ask q) w := by
  intro v still
  refine ⟨trivial, ?_⟩
  have := h v still
  split <;> simp_all [Settles, Meets]

/-- A call whose accesses are all quiet. -/
theorem yields_of_only {c : Call α} (only : c.Only Access.Quiet) (quiet : t.Quiet w.tables) :
    Yields t (fun _ v => t.Quiet v.tables) c w := by
  have met : c.Meets World.handle World.Still (fun _ _ => True) (fun _ v => t.Quiet v.tables) w := by
    refine only.meets ?_ ?_ quiet
    · intro u v quiet still
      rwa [show v.tables = u.tables from still]
    · intro q u isQuiet quiet
      exact ⟨trivial, quiet.trans (Tables.quiet_handle isQuiet u)⟩
  refine met.imp ?_
  rintro (e | a) v quiet <;> exact quiet

/-- An access that changes no table. -/
theorem yields_unchanged {q : Access} (reads : q.Reads) (here : w.tables = t) :
    Yields t (fun _ v => v.tables = t) (ask q) w := by
  refine yields_ask fun v still => ?_
  have unchanged := (World.tables_handle_of_reads reads v).trans (still.trans here)
  split <;> rename_i eq <;> rw [eq] at unchanged
  · exact unchanged
  · exact .of_eq unchanged

/-- An access that changes no table and gives this answer. -/
theorem yields_look {q : Access} (answer : q.Answer) (here : w.tables = t)
    (told : ∀ v : World, v.tables = t → v.handle q = (.ok answer, v)) :
    Yields t (fun a v => v.tables = t ∧ a = answer) (ask q) w := by
  refine yields_ask fun v still => ?_
  rw [told v (still.trans here)]
  exact ⟨still.trans here, rfl⟩

theorem yields_now (here : w.tables = t) : Yields t (fun _ v => v.tables = t) Call.now w :=
  yields_unchanged (q := .now) trivial here

theorem yields_find (token : String) (here : w.tables = t) :
    Yields t (fun s v => v.tables = t ∧ t.findByToken? token = some s) (find token) w := by
  refine yields_bind (yields_look (t.findByToken? token) here ?_) ?_
  · rintro v rfl
    rfl
  rintro _ v ⟨here, rfl⟩
  refine (yields_orFail (.of_eq here)).imp ?_
  rintro (e | s) u h
  · exact h
  · obtain ⟨found, rfl⟩ := h
    exact ⟨here, found⟩

/-- Looking at a session may end it; one that is still ongoing was left alone. -/
theorem yields_observe (s : Session) (here : w.tables = t) :
    Yields t (fun s' v => t.Quiet v.tables ∧ (s'.status = .ongoing → s' = s ∧ v.tables = t)) (observe s) w := by
  refine yields_bind (yields_now here) fun now v here => ?_
  split
  · refine yields_ask fun u still => ?_
    have here : u.tables = t := still.trans here
    simp only [World.handle, here]
    obtain ⟨_, h⟩ | ⟨s', _, finished, h⟩ | ⟨s', stored, _, h⟩ := t.markTimedOut_cases s.id now
    · rw [h]
      exact .refl t
    · rw [h]
      exact ⟨.refl t, fun ongoing => absurd ongoing finished⟩
    · rw [h]
      exact ⟨.ended stored rfl (by simp [Session.timedOut]), fun ongoing => by cases ongoing⟩
  · exact ⟨.of_eq here, fun _ => ⟨rfl, here⟩⟩

theorem status_of_ensureOngoing {s : Session} (h : ensureOngoing s = .ok ()) : s.status = .ongoing := by
  unfold ensureOngoing closedFault? at h
  cases status : s.status <;> simp_all

/-- A session that was looked at and is still ongoing is that of the token, and was left alone. -/
theorem yields_looked (token : String) (here : w.tables = t) :
    Yields t (fun s v => t.Quiet v.tables ∧ (s.status = .ongoing → t.findByToken? token = some s ∧ v.tables = t)) (look token) w := by
  refine yields_bind (yields_find token here) ?_
  rintro s v ⟨here, found⟩
  refine (yields_observe s here).imp ?_
  rintro (e | s') u h
  · exact h
  · refine ⟨h.1, fun ongoing => ?_⟩
    obtain ⟨rfl, here⟩ := h.2 ongoing
    exact ⟨found, here⟩

/-- A slot that may be answered belongs to the session of the token. -/
theorem yields_openSlot (token : String) (sequence : Int) (here : w.tables = t) :
    Yields t (fun found v => v.tables = t ∧ t.findByToken? token = some found.1 ∧ found.2 ∈ t.slotsOf found.1.id ∧
      found.2.sequence = sequence) (openSlot token sequence) w := by
  refine yields_bind (yields_looked token here) ?_
  rintro s v ⟨quiet, ongoing⟩
  refine yields_bind (yields_ofExcept quiet) ?_
  rintro _ _ ⟨ensured, rfl⟩
  obtain ⟨found, here⟩ := ongoing (status_of_ensureOngoing ensured)
  refine yields_bind (yields_look (t.slotAt? s.id sequence) here ?_) ?_
  · rintro u rfl
    rfl
  rintro _ u ⟨here, rfl⟩
  refine yields_bind (yields_orFail (.of_eq here)) ?_
  rintro slot _ ⟨held, rfl⟩
  have numbered : slot.sequence = sequence := by simpa using List.find?_some held
  exact ⟨here, found, List.mem_of_find?_eq_some held, numbered⟩

/-- A cancellation that gives a value has removed what is stored for the session of the token. -/
theorem yields_cancel (token : String) (here : w.tables = t) :
    Yields t (fun _ v => ∃ s r, t.findByToken? token = some s ∧ v.tables = t.removed s.id r) (cancel token) w := by
  refine yields_bind (yields_looked token here) ?_
  rintro s v ⟨quiet, ongoing⟩
  split
  · rename_i isOngoing
    obtain ⟨found, here⟩ := ongoing (Session.isOngoing_iff.1 isOngoing)
    have deleted : Yields t (fun deleted v => if deleted then ∃ r, v.tables = t.removed s.id r else v.tables = t)
        (ask (.deleteOngoing s.id)) v := by
      refine yields_ask fun u still => ?_
      have here : u.tables = t := still.trans here
      simp only [World.handle, here]
      obtain ⟨-, h⟩ | ⟨r, -, -, h⟩ := t.deleteOngoing_cases s.id
      · rw [h]
        rfl
      · rw [h]
        exact ⟨r, rfl⟩
    refine yields_bind deleted fun deleted u left => ?_
    cases deleted with
    | true =>
      obtain ⟨r, removed⟩ := left
      exact ⟨s, r, found, removed⟩
    | false => exact .of_eq left
  · exact quiet

theorem only_list (f : Filter) : (list f).Only Access.Quiet :=
  (confined_list f (fun _ => Access.Plain.quiet) trivial).only

/-! ## Answers and openings -/

theorem yields_record (a : Answer) (here : w.tables = t) : Yields t (fun a? v => match a? with
    | some b => b = a ∧ v.tables = { t with answers := t.answers.insert a.slot a }
    | none => v.tables = t) (ask (.record a)) w := by
  refine yields_ask fun v still => ?_
  have here : v.tables = t := still.trans here
  simp only [World.handle, here]
  obtain h | ⟨-, h⟩ := t.record_cases a
  · rw [h]
  · rw [h]
    exact ⟨rfl, rfl⟩

theorem yields_clear_slot (slot : Int) (now : Instant) (here : w.tables = t) : Yields t (fun removal v => match removal with
    | .removed => v.tables = { t with answers := t.answers.erase slot }
    | .absent => t.answers.get? slot = none ∧ v.tables = t
    | .closed => v.tables = t) (ask (.clear slot now)) w := by
  refine yields_ask fun v still => ?_
  have here : v.tables = t := still.trans here
  simp only [World.handle, here]
  obtain h | ⟨none, h⟩ | ⟨-, h⟩ := t.clear_cases slot now
  · rw [h]
  · rw [h]
    exact ⟨none, rfl⟩
  · rw [h]

/-- Whoever is told why a change was not taken gets no value. -/
theorem yields_rejection {mid : α → World → Prop} (session : Int) (quiet : t.Quiet w.tables) :
    Yields t mid (rejection session) w := by
  refine yields_bind (yields_of_only (plain_lookById session).quiet quiet) fun s v quiet => ?_
  split <;> exact quiet

theorem yields_submit (token : String) (sequence : Int) (payload : Json.Value) (here : w.tables = t) :
    Yields t (fun receipt v => t.Marks token sequence receipt.isCorrect v.tables) (submit token sequence payload) w := by
  refine yields_bind (yields_openSlot token sequence here) ?_
  rintro ⟨s, slot⟩ v ⟨here, found, listed, numbered⟩
  refine yields_bind (yields_unchanged trivial here) fun question v here => ?_
  refine yields_bind (yields_ofExcept (.of_eq here)) ?_
  rintro details _ ⟨-, rfl⟩
  refine yields_bind (yields_ofExcept (.of_eq here)) ?_
  rintro value _ ⟨-, rfl⟩
  refine yields_bind (yields_now here) fun now v here => ?_
  refine yields_bind (yields_record _ here) fun a? v recorded => ?_
  cases a? with
  | some a =>
    obtain ⟨rfl, written⟩ := recorded
    show t.Marks token sequence _ v.tables
    rw [written]
    exact .intro (some _) found listed numbered rfl fun j => Table.get?_insert _ _ _ _
  | none => exact yields_rejection s.id (.of_eq recorded)

theorem yields_clear (token : String) (sequence : Int) (here : w.tables = t) :
    Yields t (fun _ v => t.Marks token sequence false v.tables) (clear token sequence) w := by
  refine yields_bind (yields_openSlot token sequence here) ?_
  rintro ⟨s, slot⟩ v ⟨here, found, listed, numbered⟩
  refine yields_bind (yields_now here) fun now v here => ?_
  refine yields_bind (yields_clear_slot slot.id now here) fun removal v removed => ?_
  cases removal with
  | removed =>
    show t.Marks token sequence _ v.tables
    rw [removed]
    exact .intro none found listed numbered rfl fun j => Table.get?_erase _ _ _
  | absent =>
    obtain ⟨absent, here⟩ := removed
    show t.Marks token sequence _ v.tables
    rw [here]
    have written : ∀ j, t.answers.get? j = if j = slot.id then none else t.answers.get? j := by
      intro j
      split
      · rename_i this
        rw [this, absent]
      · rfl
    exact .intro none found listed numbered rfl written
  | closed => exact yields_rejection s.id (.of_eq removed)

theorem yields_create (user : Uuid) (r : Request) (chance : Chance) (here : w.tables = t) :
    Yields t (fun s v => ∃ terms drawn, t.tokens.get? terms.token = none ∧ s = t.opening terms drawn ∧
      v.tables = t.opened terms drawn) (create user r chance) w := by
  have sound : Yields t (fun _ v => v.tables = t) (within r.faults) w := by
    unfold within
    split
    · exact here
    · exact .of_eq here
  refine yields_bind sound fun _ v here => ?_
  refine yields_bind (yields_unchanged trivial here) fun known v here => ?_
  split
  · exact .of_eq here
  refine yields_bind (yields_unchanged trivial here) fun pool v here => ?_
  refine yields_bind (yields_ofExcept (.of_eq here)) ?_
  rintro ⟨drawn, used⟩ _ ⟨-, rfl⟩
  refine yields_bind (yields_now here) fun now v here => ?_
  refine yields_ask fun v still => ?_
  have here : v.tables = t := still.trans here
  simp only [World.handle, here]
  obtain ⟨_, h⟩ | ⟨fresh, h⟩ := t.create_cases _ drawn
  · rw [h]
    exact .refl t
  · rw [h]
    exact ⟨_, drawn, fresh, rfl, rfl⟩

namespace Operation

/-- What an operation with this result has done to the tables `t`. -/
def Done (t : Tables) : (o : Operation) → o.Result → Tables → Prop
  | .create _ _ _, s, u => ∃ terms drawn, t.tokens.get? terms.token = none ∧ s = t.opening terms drawn ∧ u = t.opened terms drawn
  | .submit token sequence _, receipt, u => t.Marks token sequence receipt.isCorrect u
  | .clear token sequence, _, u => t.Marks token sequence false u
  | _, _, u => t.Quiet u

/-- **Operations do what their results say.** -/
theorem yields_call (o : Operation) (w : World) : Yields w.tables (fun a v => o.Done w.tables a v.tables) o.call w := by
  cases o with
  | create user r chance => exact yields_create user r chance rfl
  | submit token sequence payload => exact yields_submit token sequence payload rfl
  | clear token sequence => exact yields_clear token sequence rfl
  | get token => exact yields_of_only (plain_get token).quiet (.refl _)
  | questions token => exact yields_of_only (plain_questions token).quiet (.refl _)
  | complete token => exact yields_of_only (plain_complete token).quiet (.refl _)
  | cancel token => exact yields_of_only (plain_cancel token).quiet (.refl _)
  | detail token => exact yields_of_only (plain_detail token).quiet (.refl _)
  | list f => exact yields_of_only (only_list f) (.refl _)

end Operation

end Exam

end Proctor
