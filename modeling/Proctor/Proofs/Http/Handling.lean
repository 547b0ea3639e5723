import Proctor.Http.Service
import Proctor.Proofs.Exam.Sparing
import Proctor.Proofs.Http.Route

/-!
# How requests are handled

What is done about a request is one of four things (`handling`): an application for a session goes to the quota, a listing is
made for an administrator, the request is refused before anything is looked at, or single sessions are looked at and written to.
Only the first two need a bearer token that is accepted. From this list it follows that no access is made that the
request does not permit (`Handling.only`), and that a request which is turned away has written nothing (`Handling.sparing`).
-/

set_option autoImplicit false

namespace Proctor.Http

open Call

variable {check : String → Option Claims} {chance : Chance} {m : Message} {claims : Claims} {user : Uuid} {r : Request}

/-- The request bears a token that is accepted with these claims. -/
def Bears (check : String → Option Claims) (m : Message) (claims : Claims) : Prop :=
  ∃ token, m.authorization = some ("Bearer " ++ token) ∧ (visible? ("Bearer " ++ token)).isSome ∧ check token = some claims

/-- The request applies for a session of the user: it is posted to the sessions, its body is read as `r`, and it bears a
token whose subject is the user. -/
structure Applies (check : String → Option Claims) (m : Message) (user : Uuid) (r : Request) : Prop where
  posted : m.method = "POST"
  path : m.pathAndQuery.1 = "/api/sessions".toList
  body : bodyOf m Wire.request = .ok r
  bearer : ∃ claims, Bears check m claims ∧ Uuid.read? claims.subject = some user

/-- The request bears a token whose role is that of an administrator, in capitals or not. -/
def Administers (check : String → Option Claims) (m : Message) : Prop :=
  ∃ claims role, Bears check m claims ∧ claims.role = some role ∧ Text.sameIgnoringCase role "admin" = true

/-- The request permits the access: the quota is asked, and a session opened, for a user who applies for one, and sessions are
listed for an administrator. -/
def Permits (check : String → Option Claims) (m : Message) : Access → Prop
  | .allowCreate user => ∃ r, Applies check m user r
  | .create terms _ => ∃ r, Applies check m terms.user r
  | .list _ => m.pathAndQuery.1 = "/api/admin/sessions".toList ∧ Administers check m
  | _ => True

/-- The statuses of replies that turn a request away: it is not acceptable, its sender is not known or may not do this, or
there have been too many. -/
def refusals : List Nat := [400, 401, 403, 429]

theorem visible?_of_isSome {value : String} (visible : (visible? value).isSome) : visible? value = some value := by
  unfold visible? at visible ⊢
  split at visible
  · rename_i all
    exact if_pos all
  · cases visible

theorem authenticate_eq_ok_iff : Bearer.authenticate check m.authorization = .ok claims ↔ Bears check m claims := by
  constructor
  · intro accepted
    unfold Bearer.authenticate at accepted
    cases given : m.authorization with
    | none =>
      rw [given] at accepted
      cases accepted
    | some value =>
      rw [given] at accepted
      cases visible : visible? value with
      | none =>
        simp only [visible] at accepted
        cases accepted
      | some value' =>
        obtain rfl : value = value' := Option.some.inj ((visible?_of_isSome (by simp [visible])).symm.trans visible)
        simp only [visible] at accepted
        split at accepted
        · rename_i scheme
          have whole : value = "Bearer " ++ String.ofList (value.toList.drop 7) := by
            have parts : value.toList = "Bearer ".toList ++ value.toList.drop 7 := by
              rw [← scheme, List.take_append_drop]
            rw [← String.toList_inj, String.toList_append, String.toList_ofList (l := value.toList.drop 7)]
            exact parts
          split at accepted <;> cases accepted
          rename_i read
          exact ⟨_, given.trans (congrArg some whole), by rw [← whole, visible]; rfl, read⟩
        · cases accepted
  · rintro ⟨token, given, visible, read⟩
    have scheme : ("Bearer " ++ token).toList = "Bearer ".toList ++ token.toList := String.toList_append
    have rest : String.ofList (("Bearer " ++ token).toList.drop 7) = token := by
      rw [scheme]
      exact String.ofList_toList
    have first : ("Bearer " ++ token).toList.take 7 = "Bearer ".toList := by
      rw [scheme]
      rfl
    unfold Bearer.authenticate
    simp only [given, visible?_of_isSome visible, first, rest, read, if_true]

/-- A session is opened and shown. -/
def opening (user : Uuid) (r : Request) (chance : Chance) : Call Reply := do
  let s ← Exam.create user r chance
  pure ⟨201, some (s.reply (some 0) (← Exam.remaining s))⟩

/-- What is done about an application. -/
def admission (user : Uuid) (r : Request) (chance : Chance) : Call Reply := do
  if ← Call.ask (.allowCreate user) then opening user r chance else .failed (.quota .tooMany)

theorem openSession_of_ok (body : bodyOf m Wire.request = .ok r) (subject : claims.user = .ok user) :
    openSession claims chance m = admission user r chance := by
  unfold openSession
  rw [body, subject]
  rfl

theorem callOf_of_applies (applies : Applies check m user r) : callOf check chance m = admission user r chance := by
  obtain ⟨claims, bears, subject⟩ := applies.bearer
  have accepted : claims.user = .ok user := by simp [Claims.user, subject]
  have head : asksForHead m = false := by simp [asksForHead, applies.posted]
  have named := Resource.ofPath_eq_sessions_iff.2 applies.path
  have posted : m.method ≠ "OPTIONS" := by simp [applies.posted]
  unfold callOf
  rw [if_neg posted, named, head]
  simp only [act, authenticate_eq_ok_iff.2 bears, applies.posted]
  exact openSession_of_ok applies.body accepted

/-- Something is done about single sessions only, and nothing before a refusal. -/
structure Serves (c : Call Reply) : Prop where
  single : c.Only Access.Single
  sparing : ∀ w : World, Exam.Sparing w.tables (fun reply _ => reply.status ∉ refusals) c w

/-- What may be done about a request. -/
inductive Handling (check : String → Option Claims) (chance : Chance) (m : Message) : Call Reply → Prop where
  | admits {user : Uuid} {r : Request} (applies : Applies check m user r) : Handling check chance m (admission user r chance)
  | lists {claims : Claims} (path : m.pathAndQuery.1 = "/api/admin/sessions".toList) (bears : Bears check m claims)
      (admin : claims.isAdmin = true) : Handling check chance m (listSessions m)
  | refuses (e : Error) : Handling check chance m (.failed e)
  | serves {c : Call Reply} (served : Serves c) (elsewhere : m.method = "GET" → m.pathAndQuery.1 ≠ "/api/admin/sessions".toList) :
      Handling check chance m c

theorem serves_pure (reply : Reply) (fine : reply.status ∉ refusals) : Serves (pure reply) :=
  ⟨only_pure, fun _ => fine⟩

/-- An operation on a session, with the reply to what it gives. -/
theorem serves_operation {α : Type} {c : Call α} {answer : α → Reply} (single : c.Only Access.Single)
    (sparing : ∀ w : World, Exam.Sparing w.tables (fun _ _ => True) c w) (ok : ∀ a, (answer a).status = 200) :
    Serves (c >>= fun a => pure (answer a)) where
  single := only_bind single fun _ => only_pure
  sparing w := Exam.sparing_bind (sparing w) fun a _ _ => by
    show (answer a).status ∉ refusals
    rw [ok a]
    decide

theorem serves_plain {α : Type} {c : Call α} {answer : α → Reply} (plain : Exam.Plain c) (ok : ∀ a, (answer a).status = 200) :
    Serves (c >>= fun a => pure (answer a)) :=
  serves_operation (plain.only.imp fun _ => Access.Plain.single) (fun _ => Exam.sparing_of_confined plain) ok

/-- What is found wrong with a part of the request is found before anything else is done. -/
theorem handling_bind {α : Type} {part : Except Error α} {f : α → Call Reply}
    (rest : ∀ a, part = .ok a → Handling check chance m (f a)) : Handling check chance m (ofExcept part >>= f) := by
  cases part with
  | ok a => exact rest a rfl
  | error e => exact .refuses e

theorem handling_openSession (accepted : Bears check m claims) (posted : m.method = "POST")
    (path : m.pathAndQuery.1 = "/api/sessions".toList) : Handling check chance m (openSession claims chance m) := by
  cases body : bodyOf m Wire.request with
  | error e =>
    unfold openSession
    rw [body]
    exact .refuses e
  | ok r =>
    cases subject : claims.user with
    | error e =>
      unfold openSession
      rw [body, subject]
      exact .refuses e
    | ok user =>
      have read : Uuid.read? claims.subject = some user := by
        unfold Claims.user at subject
        split at subject <;> cases subject
        assumption
      rw [openSession_of_ok body subject]
      exact .admits ⟨posted, path, body, claims, accepted, read⟩

/-- What is done about a resource, by a method that is the one of the request, or `GET` for `HEAD`. -/
theorem handling_act {method : String} {r : Resource} (named : Resource.ofPath m.pathAndQuery.1 = some r)
    (post : method = "POST" → m.method = "POST") (get : m.method = "GET" → method = "GET") :
    Handling check chance m (act check chance m method r) := by
  have elsewhere (other : r ≠ .listing) (_ : m.method = "GET") : m.pathAndQuery.1 ≠ "/api/admin/sessions".toList := fun path =>
    other (Option.some.inj (named.symm.trans (Resource.ofPath_eq_listing_iff.2 path)))
  have none : Serves notAllowed := serves_pure _ (by decide)
  cases r with
  | health =>
    simp only [act]
    split
    · exact .serves (serves_pure _ (by decide)) (elsewhere nofun)
    · exact .serves none (elsewhere nofun)
  | sessions =>
    refine handling_bind fun claims accepted => ?_
    split
    · rename_i posted
      exact handling_openSession (authenticate_eq_ok_iff.1 accepted) (post posted) (Resource.ofPath_eq_sessions_iff.1 named)
    · exact .serves none (elsewhere nofun)
  | listing =>
    refine handling_bind fun claims accepted => ?_
    split
    · exact .refuses _
    · rename_i admin
      split
      · exact .lists (Resource.ofPath_eq_listing_iff.1 named) (authenticate_eq_ok_iff.1 accepted) (by simpa using admin)
      · rename_i other
        exact .serves none fun asked => absurd (get asked) other
  | session token =>
    simp only [act]
    split
    · refine handling_bind fun token _ => .serves (serves_plain (Exam.plain_get token) ?_) (elsewhere nofun)
      exact fun _ => rfl
    split
    · refine handling_bind fun token _ => .serves (serves_plain (Exam.plain_cancel token) ?_) (elsewhere nofun)
      exact fun _ => rfl
    · exact .serves none (elsewhere nofun)
  | questions token =>
    simp only [act]
    split
    · refine handling_bind fun token _ => .serves (serves_plain (Exam.plain_questions token) ?_) (elsewhere nofun)
      exact fun _ => rfl
    · exact .serves none (elsewhere nofun)
  | answer token sequence =>
    simp only [act]
    split
    · refine handling_bind fun token _ => handling_bind fun sequence _ => handling_bind fun payload _ => ?_
      have sparing (w : World) := Exam.sparing_submit (w := w) token sequence payload rfl
      refine .serves (serves_operation (Exam.only_submit token sequence payload) sparing ?_) (elsewhere nofun)
      exact fun _ => rfl
    split
    · refine handling_bind fun token _ => handling_bind fun sequence _ => ?_
      have cleared := Exam.confined_clear token sequence
      refine .serves (serves_operation cleared.only (fun _ => Exam.sparing_of_confined cleared) ?_) (elsewhere nofun)
      exact fun _ => rfl
    · exact .serves none (elsewhere nofun)
  | completion token =>
    simp only [act]
    split
    · refine handling_bind fun token _ => .serves (serves_plain (Exam.plain_complete token) ?_) (elsewhere nofun)
      exact fun _ => rfl
    · exact .serves none (elsewhere nofun)
  | review token =>
    simp only [act]
    split
    · refine handling_bind fun token _ => .serves (serves_plain (Exam.plain_detail token) ?_) (elsewhere nofun)
      exact fun _ => rfl
    · exact .serves none (elsewhere nofun)

/-- **What is done about a request** is one of four things. -/
theorem handling (check : String → Option Claims) (chance : Chance) (m : Message) :
    Handling check chance m (callOf check chance m) := by
  unfold callOf
  split
  · rename_i options
    exact .serves (serves_pure (.bare 200) (by decide)) fun get => by simp [options] at get
  split
  · rename_i unnamed
    refine .serves (serves_pure (.bare 404) (by decide)) fun _ path => ?_
    cases unnamed.symm.trans (Resource.ofPath_eq_listing_iff.2 path)
  · rename_i r named
    have post (posted : (if asksForHead m then "GET" else m.method) = "POST") : m.method = "POST" := by
      split at posted
      · exact absurd posted (by decide)
      · exact posted
    have get (asked : m.method = "GET") : (if asksForHead m then "GET" else m.method) = "GET" := by
      rw [asked, ite_self]
    exact handling_act named post get

/-! ## What follows for all requests -/

theorem not_mem_refusals_of_stored {e : Error} (stored : e.Stored) : (Reply.ofError e).status ∉ refusals := by
  show e.httpStatus ∉ [400, 401, 403, 429]
  cases e with
  | notFound | state | timeout | database | internal => simp [Error.httpStatus]
  | _ => cases stored

theorem httpStatus_ne_ok (e : Error) : e.httpStatus ≠ 200 := by
  cases e <;> exact nofun

theorem administers_of_isAdmin (bears : Bears check m claims) (admin : claims.isAdmin = true) : Administers check m := by
  unfold Claims.isAdmin at admin
  cases given : claims.role with
  | none => simp [given] at admin
  | some role => exact ⟨claims, role, bears, given, by simpa [given] using admin⟩

theorem permits_of_single {q : Access} (single : q.Single) : Permits check m q := by
  cases q with
  | allowCreate | create | list => cases single
  | _ => exact trivial

theorem permits_of_opens {q : Access} (applies : Applies check m user r) (opens : q.Opens user) : Permits check m q := by
  cases q with
  | create terms drawn =>
    obtain rfl : terms.user = user := opens
    exact ⟨r, applies⟩
  | allowCreate | list => cases opens
  | _ => exact trivial

theorem plain_withRemaining (sessions : List Session) : Exam.Plain (withRemaining sessions) := by
  induction sessions with
  | nil => exact confined_pure
  | cons s rest ih =>
    exact confined_bind (Exam.plain_remaining s) fun left => confined_bind ih fun items => confined_pure

theorem only_opening (user : Uuid) (r : Request) (chance : Chance) : (opening user r chance).Only (Access.Opens user) := by
  refine only_bind (Exam.only_create user r chance) fun s => only_bind ?_ fun left => only_pure
  unfold Exam.remaining
  split
  · exact only_pure
  · exact only_bind (only_now.2 trivial) fun now => only_pure

namespace Handling

variable {c : Call Reply}

/-- **Only permitted accesses are made.** -/
theorem only (h : Handling check chance m c) : c.Only (Permits check m) := by
  cases h with
  | admits applies =>
    refine only_bind (only_ask.2 ⟨_, applies⟩) fun granted => ?_
    split
    · exact (only_opening _ _ _).imp fun _ => permits_of_opens applies
    · exact only_failed
  | lists path bears admin =>
    unfold listSessions
    generalize Query.filter m.pathAndQuery.2 = query
    refine only_bind only_ofExcept fun f => ?_
    have listed := Exam.confined_list (p := Permits check m) f (fun q plain => permits_of_single plain.single)
      ⟨path, administers_of_isAdmin bears admin⟩
    refine only_bind listed.only fun found => ?_
    refine only_bind ((plain_withRemaining found.1).only.imp fun q plain => permits_of_single plain.single) fun items => ?_
    exact only_pure
  | refuses e => exact only_failed
  | serves served elsewhere => exact served.single.imp fun _ => permits_of_single

/-- **A request that is turned away has written nothing**, unless the error tells of what is stored. -/
theorem sparing (h : Handling check chance m c) (w : World) :
    Exam.Sparing w.tables (fun reply _ => reply.status ∉ refusals) c w := by
  cases h with
  | admits applies =>
    refine Exam.sparing_bind (Exam.sparing_ask trivial rfl) fun granted v here => ?_
    split
    · refine Exam.sparing_bind (Exam.sparing_create _ _ _ here) fun s v _ => ?_
      refine Exam.sparing_bind (Exam.sparing_of_confined (Exam.plain_remaining s)) fun left v _ => ?_
      show (201 : Nat) ∉ refusals
      decide
    · exact Exam.sparing_failed here
  | lists path bears admin =>
    unfold listSessions
    generalize Query.filter m.pathAndQuery.2 = query
    refine Exam.sparing_bind (Exam.sparing_ofExcept rfl) fun f v _ => ?_
    have listed := Exam.confined_list (p := fun _ => True) f (fun _ _ => trivial) trivial
    refine Exam.sparing_bind (Exam.sparing_of_confined listed) fun found v _ => ?_
    refine Exam.sparing_bind (Exam.sparing_of_confined (plain_withRemaining found.1)) fun items v _ => ?_
    show (200 : Nat) ∉ refusals
    decide
  | refuses e => exact Exam.sparing_failed rfl
  | serves served elsewhere => exact served.sparing w

/-- **A listing is shown only to an administrator.** -/
theorem administers {σ : Type} {handle : Handler σ} {a : σ} (h : Handling check chance m c) (get : m.method = "GET")
    (path : m.pathAndQuery.1 = "/api/admin/sessions".toList) (shown : (Reply.ofExcept (c.run handle a).1).status = 200) :
    Administers check m := by
  cases h with
  | admits applies => exact absurd (get.symm.trans applies.posted) (by decide)
  | lists path bears admin => exact administers_of_isAdmin bears admin
  | refuses e => exact absurd shown (httpStatus_ne_ok e)
  | serves served elsewhere => exact absurd path (elsewhere get)

end Handling

end Proctor.Http
