import Proctor.Exam.Operation
import Proctor.Proofs.Call.Footprint
import Proctor.Proofs.Store.Quiet

/-!
# What operations make of single sessions

An operation on one session finds it, looks at what is stored for it, and may end it; if it answers or clears a slot it
also writes there. It opens no session, lists none, and asks no quota. If it gives up, this is because of what is stored, and
not because of the request (`Error.Stored`), unless an answer is not accepted.
-/

set_option autoImplicit false

namespace Proctor

/-- The access looks at what is stored for single sessions, or ends one. -/
def Access.Plain : Access → Prop
  | .create _ _ => False
  | .list _ => False
  | .record _ => False
  | .clear _ _ => False
  | .hasLevel _ _ => False
  | .pool _ => False
  | .allowCreate _ => False
  | _ => True

/-- The access is plain, or answers or clears a slot. -/
def Access.Single : Access → Prop
  | .record _ => True
  | .clear _ _ => True
  | q => q.Plain

/-- The access belongs to the opening of a session for the user. -/
def Access.Opens (user : Uuid) : Access → Prop
  | .now => True
  | .hasLevel _ _ => True
  | .pool _ => True
  | .create terms _ => terms.user = user
  | _ => False

theorem Access.Plain.single {q : Access} (plain : q.Plain) : q.Single := by
  cases q <;> first | exact trivial | exact plain

theorem Access.Plain.quiet {q : Access} (plain : q.Plain) : q.Quiet := by
  cases q <;> first | exact trivial | exact plain

/-- The error says what there is or is not in the store, and does not blame the request or its sender. -/
def Error.Stored : Error → Prop
  | .notFound _ => True
  | .state _ => True
  | .timeout _ => True
  | .database _ => True
  | .internal _ => True
  | _ => False

/-- Single accesses blame nobody. -/
theorem World.stored_of_handle {q : Access} {w v : World} {e : Error} (eq : w.handle q = (.error e, v)) : e.Stored := by
  cases q with
  | create terms drawn =>
    simp only [handle] at eq
    cases outcome : (w.tables.create terms drawn).1 <;> rw [outcome] at eq <;> cases eq
    exact trivial
  | markTimedOut id now =>
    simp only [handle] at eq
    cases outcome : (w.tables.markTimedOut id now).1 <;> rw [outcome] at eq <;> cases eq
    exact trivial
  | question id =>
    simp only [handle] at eq
    split at eq <;> cases eq
    exact trivial
  | _ => cases eq

namespace Exam

open Call

/-- The call makes only accesses to single sessions, writes no answers, and gives up only because of what is stored. -/
abbrev Plain {α : Type} (c : Call α) : Prop := c.Confined Access.Plain Error.Stored

theorem Plain.quiet {α : Type} {c : Call α} (plain : Plain c) : c.Only Access.Quiet :=
  plain.only.imp fun _ => Access.Plain.quiet

theorem stored_of_closedFault? {s : Session} {e : Error} (closed : closedFault? s = some e) : e.Stored := by
  unfold closedFault? at closed
  split at closed <;> cases closed <;> exact trivial

theorem stored_of_ensureOngoing {s : Session} {e : Error} (refused : ensureOngoing s = .error e) : e.Stored := by
  unfold ensureOngoing at refused
  split at refused
  · cases refused
  · rename_i closed
    cases refused
    exact stored_of_closedFault? closed

theorem stored_of_detailsFor {q : Question} {kind : Kind} {e : Error} (refused : q.detailsFor kind = .error e) : e.Stored := by
  unfold Question.detailsFor at refused
  split at refused <;> cases refused
  exact trivial

/-- Where items are read one after the other, the error is that of one of them. -/
theorem exists_of_mapM_eq_error {α β : Type} {g : α → Except Error β} {l : List α} {e : Error} (failed : l.mapM g = .error e) :
    ∃ a ∈ l, g a = .error e := by
  induction l with
  | nil => cases failed
  | cons a l ih =>
    rw [List.mapM_cons] at failed
    cases first : g a with
    | error e' =>
      rw [first] at failed
      cases failed
      exact ⟨a, List.mem_cons_self, first⟩
    | ok b =>
      cases rest : l.mapM g with
      | error e' =>
        rw [first, rest] at failed
        cases failed
        obtain ⟨a, listed, eq⟩ := ih rest
        exact ⟨a, List.mem_cons_of_mem _ listed, eq⟩
      | ok bs =>
        rw [first, rest] at failed
        cases failed

theorem Joined.stored_of_questionOf {j : Joined} {slot : Slot} {e : Error} (failed : j.questionOf slot = .error e) : e.Stored := by
  unfold questionOf at failed
  split at failed <;> cases failed
  exact trivial

theorem Joined.stored_of_sheetItem {j : Joined} {slot : Slot} {e : Error} (failed : j.sheetItem slot = .error e) : e.Stored := by
  unfold sheetItem at failed
  cases question : j.questionOf slot with
  | ok q =>
    rw [question] at failed
    cases failed
  | error e' =>
    rw [question] at failed
    cases failed
    exact stored_of_questionOf question

theorem Joined.stored_of_reviewItem {j : Joined} {slot : Slot} {e : Error} (failed : j.reviewItem slot = .error e) : e.Stored := by
  unfold reviewItem at failed
  cases question : j.questionOf slot with
  | error e' =>
    rw [question] at failed
    cases failed
    exact stored_of_questionOf question
  | ok q =>
    rw [question] at failed
    cases details : q.detailsFor slot.kind with
    | error e' =>
      simp only [Bind.bind, Except.bind, details] at failed
      cases failed
      exact stored_of_detailsFor details
    | ok d =>
      simp only [Bind.bind, Except.bind, details] at failed
      cases failed

/-! ## Looking at a session -/

theorem plain_find (token : String) : Plain (find token) :=
  confined_bind (confined_ask.2 trivial) fun _ => confined_orFail trivial

theorem plain_observe (s : Session) : Plain (observe s) := by
  refine confined_bind (confined_now.2 trivial) fun now => ?_
  split
  · exact confined_ask.2 trivial
  · exact confined_pure

theorem plain_look (token : String) : Plain (look token) := confined_bind (plain_find token) plain_observe

theorem plain_lookById (id : Int) : Plain (lookById id) :=
  confined_bind (confined_ask.2 trivial) fun _ => confined_bind (confined_orFail trivial) plain_observe

theorem plain_remaining (s : Session) : Plain (remaining s) := by
  unfold remaining
  split
  · exact confined_pure
  · exact confined_bind (confined_now.2 trivial) fun _ => confined_pure

theorem plain_ensureOngoing (s : Session) : Plain (ofExcept (ensureOngoing s)) :=
  confined_ofExcept fun _ => stored_of_ensureOngoing

theorem plain_observeAll (sessions : List Session) : Plain (observeAll sessions) := by
  induction sessions with
  | nil => exact confined_pure
  | cons s rest ih => exact confined_bind (plain_observe s) fun _ => confined_bind ih fun _ => confined_pure

theorem plain_join (session : Int) : Plain (join session) := by
  refine confined_bind (confined_ask.2 trivial) fun _ => ?_
  refine confined_bind (confined_ask.2 trivial) fun _ => ?_
  exact confined_bind (confined_ask.2 trivial) fun _ => confined_pure

theorem plain_get (token : String) : Plain (get token) := by
  refine confined_bind (plain_look token) fun s => ?_
  refine confined_bind (confined_ask.2 trivial) fun _ => ?_
  exact confined_bind (plain_remaining s) fun _ => confined_pure

theorem plain_questions (token : String) : Plain (questions token) := by
  refine confined_bind (plain_look token) fun s => ?_
  refine confined_bind (plain_ensureOngoing s) fun _ => ?_
  refine confined_bind (plain_join s.id) fun joined => ?_
  refine confined_bind (confined_ofExcept fun e failed => ?_) fun _ => ?_
  · obtain ⟨slot, -, failed⟩ := exists_of_mapM_eq_error failed
    exact Joined.stored_of_sheetItem failed
  exact confined_bind (plain_remaining s) fun _ => confined_pure

theorem plain_detail (token : String) : Plain (detail token) := by
  refine confined_bind (plain_look token) fun s => ?_
  split
  · refine confined_bind (plain_join s.id) fun joined => ?_
    refine confined_bind (confined_ofExcept fun e failed => ?_) fun _ => confined_pure
    obtain ⟨slot, -, failed⟩ := exists_of_mapM_eq_error failed
    exact Joined.stored_of_reviewItem failed
  · exact confined_failed.2 trivial

/-- A listing looks for the sessions of its page, and then at each of them. -/
theorem confined_list {p : Access → Prop} (f : Filter) (plain : ∀ q, q.Plain → p q) (lists : p (.list f)) :
    (list f).Confined p Error.Stored := by
  refine confined_bind (confined_ask.2 lists) fun found => ?_
  exact confined_bind ((plain_observeAll found.1).imp plain fun _ => id) fun _ => confined_pure

/-! ## Ending a session -/

theorem plain_ifOngoing (s : Session) : Plain (ifOngoing s) := confined_bind (plain_ensureOngoing s) fun _ => confined_pure

theorem plain_settled (s : Session) : Plain (settled s) := by
  unfold settled
  split
  · exact confined_pure
  · rename_i closed _
    exact confined_failed.2 (stored_of_closedFault? closed)
  · exact confined_failed.2 trivial

theorem plain_complete (token : String) : Plain (complete token) := by
  refine confined_bind (plain_find token) fun s => ?_
  split
  · exact confined_pure
  · refine confined_bind (confined_now.2 trivial) fun now => ?_
    split
    · exact confined_bind (confined_ask.2 trivial) plain_ifOngoing
    · refine confined_bind (confined_ask.2 trivial) fun done => ?_
      split
      · exact confined_pure
      · exact confined_bind (plain_lookById s.id) plain_settled
  · exact plain_ifOngoing s

theorem plain_cancel (token : String) : Plain (cancel token) := by
  refine confined_bind (plain_look token) fun s => ?_
  split
  · refine confined_bind (confined_ask.2 trivial) fun deleted => ?_
    split
    · exact confined_pure
    · exact confined_failed.2 trivial
  · exact confined_failed.2 trivial

/-! ## Answering -/

theorem plain_openSlot (token : String) (sequence : Int) : Plain (openSlot token sequence) := by
  refine confined_bind (plain_look token) fun s => ?_
  refine confined_bind (plain_ensureOngoing s) fun _ => ?_
  refine confined_bind (confined_ask.2 trivial) fun _ => ?_
  exact confined_bind (confined_orFail trivial) fun _ => confined_pure

theorem plain_rejection {α : Type} (session : Int) : Plain (rejection (α := α) session) := by
  refine confined_bind (plain_lookById session) fun s => ?_
  split
  · rename_i closed
    exact confined_failed.2 (stored_of_closedFault? closed)
  · exact confined_failed.2 trivial

theorem only_submit (token : String) (sequence : Int) (payload : Json.Value) :
    (submit token sequence payload).Only Access.Single := by
  refine only_bind ((plain_openSlot token sequence).only.imp fun _ => Access.Plain.single) fun found => ?_
  refine only_bind (only_ask.2 trivial) fun question => ?_
  refine only_bind only_ofExcept fun details => ?_
  refine only_bind only_ofExcept fun value => ?_
  refine only_bind (only_now.2 trivial) fun now => ?_
  refine only_bind (only_ask.2 trivial) fun a? => ?_
  cases a? with
  | some a => exact only_pure
  | none => exact (plain_rejection found.1.id).only.imp fun _ => Access.Plain.single

theorem confined_clear (token : String) (sequence : Int) : (clear token sequence).Confined Access.Single Error.Stored := by
  have single {α : Type} {c : Call α} (plain : Plain c) : c.Confined Access.Single Error.Stored :=
    plain.imp (fun _ => Access.Plain.single) fun _ => id
  refine confined_bind (single (plain_openSlot token sequence)) fun found => ?_
  refine confined_bind (confined_now.2 trivial) fun now => ?_
  refine confined_bind (confined_ask.2 trivial) fun removal => ?_
  cases removal with
  | closed => exact single (plain_rejection found.1.id)
  | removed => exact confined_pure
  | absent => exact confined_pure

/-! ## Opening a session -/

theorem only_within (faults : List BoundFault) {p : Access → Prop} : (within faults).Only p := by
  unfold within
  split
  · exact only_pure
  · exact only_failed

theorem only_create (user : Uuid) (r : Request) (chance : Chance) : (create user r chance).Only (Access.Opens user) := by
  refine only_bind (only_within r.faults) fun _ => ?_
  refine only_bind (only_ask.2 trivial) fun known => ?_
  split
  · exact only_failed
  refine only_bind (only_ask.2 trivial) fun pool => ?_
  refine only_bind only_ofExcept fun drawn => ?_
  exact only_bind (only_now.2 trivial) fun now => only_ask.2 rfl

end Exam

end Proctor
