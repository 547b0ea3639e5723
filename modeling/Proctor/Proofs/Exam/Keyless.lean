import Proctor.Proofs.Call.Footprint
import Proctor.Proofs.Course.Basic
import Proctor.Proofs.Store.Keyless

/-!
# What operations tell about keys

An operation is carried out in two worlds that differ in keys, grades and scores only. It fails with the
same error in both or gives values that are alike (`Operation.Alike`), and leaves worlds that still
differ in nothing else (`Operation.keyless_call`).
-/

set_option autoImplicit false

namespace Proctor

/-- The worlds differ in keys, grades and scores only, and their clocks show the same. -/
structure Ticking.Alike (v w : Ticking) : Prop where
  world : v.world.Alike w.world
  clock : v.clock = w.clock

theorem Ticking.Alike.ready {v w : Ticking} (h : v.Alike w) (q : Access) : (v.ready q).Alike (w.ready q) := by
  cases q with
  | now =>
    refine ⟨{ h.world with now := congrFun h.clock 0 }, ?_⟩
    exact congrArg (fun clock i => clock (i + 1)) h.clock
  | _ => exact h

namespace Exam

open Call

variable {α β γ δ : Type} {r s : Session}

/-- In worlds that differ in keys, grades and scores only, the calls come to outcomes that agree. -/
abbrev Keyless (like : α → β → Prop) (c : Call α) (d : Call β) : Prop := Couples Ticking.handle Ticking.Alike like c d

theorem keyless_ask (q : Access) : Keyless q.Alike (ask q) (ask q) := by
  refine couples_ask fun v w alike => ?_
  obtain ⟨agree, after⟩ := (alike.ready q).world.handle q
  exact ⟨agree, after, (alike.ready q).clock⟩

theorem keyless_record {a b : Answer} (same : a.veiled = b.veiled) :
    Keyless (fun a b => a.map Answer.veiled = b.map Answer.veiled) (ask (.record a)) (ask (.record b)) := by
  refine couples_ask fun v w alike => ?_
  obtain ⟨agree, after⟩ := alike.world.record same
  exact ⟨agree, after, alike.clock⟩

/-- A call that is told nothing about keys, grades and scores. -/
theorem keyless_of_only {c : Call α} (only : c.Only fun q => ∀ a b, q.Alike a b → a = b) : Keyless Eq c c := by
  induction c with
  | done a => exact couples_pure rfl
  | failed e => exact couples_failed e
  | step q next ih =>
    refine couples_bind (c := ask q) (d := ask q) (keyless_ask q) fun a b alike => ?_
    obtain rfl := only.1 a b alike
    exact ih a (only.2 a)

/-! ## Looking at sessions -/

theorem closedFault?_congr (same : r.veiled = s.veiled) : closedFault? r = closedFault? s := by
  simp only [closedFault?, Session.status_eq_of_veiled same, Session.deadline_eq_of_veiled same]

theorem ensureOngoing_congr (same : r.veiled = s.veiled) : ensureOngoing r = ensureOngoing s := by
  simp only [ensureOngoing, closedFault?_congr same]

theorem keyless_ensureOngoing (same : r.veiled = s.veiled) : Keyless Eq (ofExcept (ensureOngoing r)) (ofExcept (ensureOngoing s)) := by
  rw [ensureOngoing_congr same]
  exact keyless_of_only only_ofExcept

theorem keyless_find (token : String) : Keyless (fun r s => r.veiled = s.veiled) (find token) (find token) :=
  couples_bind (keyless_ask (.findByToken token)) fun _ _ alike => couples_orFail _ (rel_of_map_eq alike)

theorem keyless_observe (same : r.veiled = s.veiled) : Keyless (fun r s => r.veiled = s.veiled) (observe r) (observe s) := by
  refine couples_bind (keyless_ask .now) ?_
  rintro now _ rfl
  rw [Session.isExpired_eq_of_veiled same, Session.id_eq_of_veiled same]
  split
  · exact keyless_ask (.markTimedOut s.id now)
  · exact couples_pure same

theorem keyless_look (token : String) : Keyless (fun r s => r.veiled = s.veiled) (look token) (look token) :=
  couples_bind (keyless_find token) fun _ _ => keyless_observe

theorem keyless_lookById (id : Int) : Keyless (fun r s => r.veiled = s.veiled) (lookById id) (lookById id) :=
  couples_bind (keyless_ask (.find id)) fun _ _ alike =>
    couples_bind (couples_orFail _ (rel_of_map_eq alike)) fun _ _ => keyless_observe

theorem keyless_remaining (same : r.veiled = s.veiled) : Keyless Eq (remaining r) (remaining s) := by
  simp only [remaining, Session.status_eq_of_veiled same, Session.deadline_eq_of_veiled same]
  split
  · exact couples_pure rfl
  · refine couples_bind (keyless_ask .now) ?_
    rintro now _ rfl
    exact couples_pure rfl

/-! ## Sheets and reviews -/

/-- The same slots, with questions and answers that are alike. -/
structure Joined.Alike (j k : Joined) : Prop where
  slots : j.slots = k.slots
  questions : j.questions.map Question.face = k.questions.map Question.face
  answers : j.answers.map Answer.veiled = k.answers.map Answer.veiled

/-- Items of reviews that differ in the right answer and the grade only. -/
structure ReviewItem.Alike (a b : ReviewItem) : Prop where
  sequence : a.sequence = b.sequence
  kind : a.kind = b.kind
  content : a.content = b.content
  answer : a.answer.map Answer.veiled = b.answer.map Answer.veiled
  shown : a.shown = b.shown

theorem agree_detailsFor {q q' : Question} (face : q.face = q'.face) (slot : Kind) :
    Agree (fun d e : Details => d.withoutKey = e.withoutKey) (q.detailsFor slot) (q'.detailsFor slot) := by
  simp only [Question.detailsFor, Question.kind_eq_of_face face, Question.id_eq_of_face face]
  split
  · exact .ok (Question.details_eq_of_face face)
  · exact .error _

namespace Joined.Alike

variable {j k : Joined}

theorem questionOf (h : j.Alike k) (slot : Slot) : Agree (fun q r => q.face = r.face) (j.questionOf slot) (k.questionOf slot) := by
  have found : (j.questions.find? (·.id == slot.question)).map Question.face =
      (k.questions.find? (·.id == slot.question)).map Question.face := by
    have first := congrArg (List.find? fun q : Scope × Content => q.2.question == slot.question) h.questions
    rwa [List.find?_map, List.find?_map] at first
  have rel := rel_of_map_eq found
  unfold Joined.questionOf
  generalize j.questions.find? (·.id == slot.question) = q? at rel
  generalize k.questions.find? (·.id == slot.question) = r? at rel
  cases rel with
  | none => exact .error _
  | some same => exact .ok same

theorem answerOf? (h : j.Alike k) (slot : Slot) :
    (j.answerOf? slot).map Answer.veiled = (k.answerOf? slot).map Answer.veiled := by
  have first := congrArg (List.find? fun a : Answer => a.slot == slot.id) h.answers
  rwa [List.find?_map, List.find?_map] at first

/-- A sheet shows no more than the faces of questions and the selections of answers. -/
theorem sheetItem (h : j.Alike k) (slot : Slot) : Agree Eq (j.sheetItem slot) (k.sheetItem slot) := by
  refine (h.questionOf slot).bind fun q r face => .ok ?_
  have value : (j.answerOf? slot).map (·.value) = (k.answerOf? slot).map (·.value) := by
    have values := congrArg (Option.map Answer.value) (h.answerOf? slot)
    rwa [Option.map_map, Option.map_map] at values
  rw [Question.content_eq_of_face face, value]

theorem reviewItem (h : j.Alike k) (slot : Slot) : Agree ReviewItem.Alike (j.reviewItem slot) (k.reviewItem slot) := by
  refine (h.questionOf slot).bind fun q r face => ?_
  refine (agree_detailsFor face slot.kind).bind fun d e open_ => .ok ?_
  refine ⟨rfl, rfl, Question.content_eq_of_face face, h.answerOf? slot, ?_⟩
  have given := rel_of_map_eq (h.answerOf? slot)
  dsimp only
  generalize j.answerOf? slot = a? at given
  generalize k.answerOf? slot = b? at given
  cases given with
  | none => rfl
  | some same => simp only [Option.bind_some, Details.present_congr open_, Answer.value_eq_of_veiled same]

end Joined.Alike

theorem keyless_join {id id' : Int} (same : id = id') : Keyless Joined.Alike (join id) (join id') := by
  subst same
  refine couples_bind (keyless_ask (.sheet id)) ?_
  rintro slots _ rfl
  refine couples_bind (keyless_ask (.questions _)) fun _ _ questions => ?_
  exact couples_bind (keyless_ask (.answersOf id)) fun _ _ answers => couples_pure ⟨rfl, questions, answers⟩

theorem keyless_questions (token : String) : Keyless Eq (questions token) (questions token) := by
  refine couples_bind (keyless_look token) fun r s same => ?_
  refine couples_bind (keyless_ensureOngoing same) fun _ _ _ => ?_
  refine couples_bind (keyless_join (Session.id_eq_of_veiled same)) fun j k joined => ?_
  have items : Agree (List.Forall₂ Eq) (j.slots.mapM j.sheetItem) (k.slots.mapM k.sheetItem) := by
    rw [joined.slots]
    exact agree_mapM joined.sheetItem k.slots
  refine couples_bind (couples_ofExcept items) fun shown shown' equal => ?_
  refine couples_bind (keyless_remaining same) ?_
  rintro left _ rfl
  have terms := Session.toTerms_eq_of_veiled same
  rw [List.forall₂_eq_eq_eq] at equal
  exact couples_pure (by rw [terms, equal])

theorem keyless_get (token : String) : Keyless (fun a b : Snapshot => a.session.veiled = b.session.veiled ∧ a.answered = b.answered ∧
    a.remaining = b.remaining ∧ (a.session.status ≠ .completed → a = b)) (get token) (get token) := by
  refine couples_bind (keyless_look token) fun r s same => ?_
  rw [Session.id_eq_of_veiled same]
  refine couples_bind (keyless_ask (.answersOf s.id)) fun _ _ answers => ?_
  have count := congrArg List.length answers
  rw [List.length_map, List.length_map] at count
  refine couples_bind (keyless_remaining same) fun _ _ left => couples_pure ⟨same, count, left, fun open_ => ?_⟩
  rw [Session.eq_of_veiled same open_, count, left]

theorem keyless_detail (token : String) : Keyless (fun a b : Review => a.session.veiled = b.session.veiled ∧
    List.Forall₂ ReviewItem.Alike a.items b.items) (detail token) (detail token) := by
  refine couples_bind (keyless_look token) fun r s same => ?_
  rw [Session.status_eq_of_veiled same]
  split
  · refine couples_bind (keyless_join (Session.id_eq_of_veiled same)) fun j k joined => ?_
    have items : Agree (List.Forall₂ ReviewItem.Alike) (j.slots.mapM j.reviewItem) (k.slots.mapM k.reviewItem) := by
      rw [joined.slots]
      exact agree_mapM joined.reviewItem k.slots
    exact couples_bind (couples_ofExcept items) fun _ _ shown => couples_pure ⟨same, shown⟩
  · exact couples_failed _

/-! ## Answers -/

theorem keyless_openSlot (token : String) (sequence : Int) :
    Keyless (fun a b => a.1.veiled = b.1.veiled ∧ a.2 = b.2) (openSlot token sequence) (openSlot token sequence) := by
  refine couples_bind (keyless_look token) fun r s same => ?_
  refine couples_bind (keyless_ensureOngoing same) fun _ _ _ => ?_
  rw [Session.id_eq_of_veiled same]
  refine couples_bind (keyless_ask (.slotAt s.id sequence)) ?_
  rintro slot? _ rfl
  refine couples_bind (keyless_of_only only_orFail) ?_
  rintro slot _ rfl
  exact couples_pure ⟨same, rfl⟩

theorem keyless_rejection {like : α → α → Prop} {id id' : Int} (same : id = id') : Keyless like (rejection id) (rejection id') := by
  subst same
  refine couples_bind (keyless_lookById id) fun r s same => ?_
  rw [closedFault?_congr same]
  split <;> exact couples_failed _

theorem keyless_submit (token : String) (sequence : Int) (payload : Json.Value) :
    Keyless (fun a b : Receipt => a.sequence = b.sequence ∧ a.answeredAt = b.answeredAt) (submit token sequence payload)
      (submit token sequence payload) := by
  refine couples_bind (keyless_openSlot token sequence) ?_
  rintro ⟨r, slot⟩ ⟨s, _⟩ ⟨same, rfl⟩
  refine couples_bind (keyless_ask (.question slot.question)) fun q q' face => ?_
  refine couples_bind (couples_ofExcept (agree_detailsFor face slot.kind)) fun d e open_ => ?_
  rw [Details.accept_congr open_]
  refine couples_bind (keyless_of_only only_ofExcept) ?_
  rintro value _ rfl
  refine couples_bind (keyless_ask .now) ?_
  rintro now _ rfl
  refine couples_bind (keyless_record rfl) fun a? b? alike => ?_
  have taken := rel_of_map_eq alike
  cases taken with
  | none => exact keyless_rejection (Session.id_eq_of_veiled same)
  | some equal => exact couples_pure ⟨rfl, Answer.answeredAt_eq_of_veiled equal⟩

theorem keyless_clear (token : String) (sequence : Int) : Keyless Eq (clear token sequence) (clear token sequence) := by
  refine couples_bind (keyless_openSlot token sequence) ?_
  rintro ⟨r, slot⟩ ⟨s, _⟩ ⟨same, rfl⟩
  refine couples_bind (keyless_ask .now) ?_
  rintro now _ rfl
  refine couples_bind (keyless_ask (.clear slot.id now)) ?_
  rintro removal _ rfl
  cases removal with
  | closed => exact keyless_rejection (Session.id_eq_of_veiled same)
  | removed => exact couples_pure rfl
  | absent => exact couples_pure rfl

/-! ## Beginnings and ends -/

theorem keyless_create (user : Uuid) (r : Request) (chance : Chance) : Keyless Eq (create user r chance) (create user r chance) := by
  refine keyless_of_only ((only_create user r chance).imp fun q opens => ?_)
  cases q with
  | now | hasLevel | pool | create => exact fun _ _ => id
  | _ => cases opens

theorem keyless_ifOngoing (same : r.veiled = s.veiled) : Keyless (fun r s => r.veiled = s.veiled) (ifOngoing r) (ifOngoing s) :=
  couples_bind (keyless_ensureOngoing same) fun _ _ _ => couples_pure same

theorem keyless_settled (same : r.veiled = s.veiled) : Keyless (fun r s => r.veiled = s.veiled) (settled r) (settled s) := by
  unfold settled
  rw [Session.status_eq_of_veiled same, closedFault?_congr same]
  generalize closedFault? s = fault?
  cases s.status <;> cases fault? <;> first | exact couples_pure same | exact couples_failed _

theorem keyless_finish (same : r.veiled = s.veiled) : Keyless (fun r s => r.veiled = s.veiled) (finish r) (finish s) := by
  refine couples_bind (keyless_ask .now) ?_
  rintro now _ rfl
  rw [Session.isExpired_eq_of_veiled same, Session.id_eq_of_veiled same]
  split
  · exact couples_bind (keyless_ask (.markTimedOut s.id now)) fun _ _ => keyless_ifOngoing
  · refine couples_bind (keyless_ask (.complete s.id now)) fun a? b? alike => ?_
    have done := rel_of_map_eq alike
    cases done with
    | some equal => exact couples_pure equal
    | none => exact couples_bind (keyless_lookById s.id) fun _ _ => keyless_settled

theorem keyless_complete (token : String) : Keyless (fun r s => r.veiled = s.veiled) (complete token) (complete token) := by
  refine couples_bind (keyless_find token) fun r s same => ?_
  rw [Session.status_eq_of_veiled same]
  cases s.status with
  | completed => exact couples_pure same
  | ongoing => exact keyless_finish same
  | timeout => exact keyless_ifOngoing same
  | cancelled => exact keyless_ifOngoing same

theorem keyless_cancel (token : String) : Keyless Eq (cancel token) (cancel token) := by
  refine couples_bind (keyless_look token) fun r s same => ?_
  rw [Session.isOngoing_eq_of_veiled same, Session.id_eq_of_veiled same, Session.status_eq_of_veiled same]
  split
  · refine couples_bind (keyless_ask (.deleteOngoing s.id)) ?_
    rintro deleted _ rfl
    split
    · exact couples_pure rfl
    · exact couples_failed _
  · exact couples_failed _

/-! ## Listings -/

theorem keyless_observeAll {rs ss : List Session} (same : rs.map Session.veiled = ss.map Session.veiled) :
    Keyless (fun rs ss => rs.map Session.veiled = ss.map Session.veiled) (observeAll rs) (observeAll ss) := by
  induction rs generalizing ss with
  | nil =>
    obtain rfl := List.map_eq_nil_iff.1 same.symm
    exact couples_pure rfl
  | cons r rs ih =>
    obtain ⟨s, ss, rfl, first, rest⟩ := List.map_eq_cons_iff.1 same.symm
    refine couples_bind (keyless_observe first.symm) fun _ _ observed => ?_
    exact couples_bind (ih rest.symm) fun _ _ others => couples_pure (by rw [List.map_cons, List.map_cons, observed, others])

theorem keyless_list (f : Filter) : Keyless (fun a b => a.1.map Session.veiled = b.1.map Session.veiled ∧ a.2 = b.2) (list f) (list f) := by
  refine couples_bind (keyless_ask (.list f)) ?_
  rintro ⟨rs, total⟩ ⟨ss, _⟩ ⟨same, rfl⟩
  exact couples_bind (keyless_observeAll same) fun _ _ observed => couples_pure ⟨observed, rfl⟩

namespace Operation

/-- Results that tell the same, apart from whether answers are right, from what would be right once a session has ended,
and from the scores of sessions that are completed. -/
def Alike : (o : Operation) → o.Result → o.Result → Prop
  | .create _ _ _, a, b => a = b
  | .get _, a, b => a.session.veiled = b.session.veiled ∧ a.answered = b.answered ∧ a.remaining = b.remaining ∧
      (a.session.status ≠ .completed → a = b)
  | .questions _, a, b => a = b
  | .submit _ _ _, a, b => a.sequence = b.sequence ∧ a.answeredAt = b.answeredAt
  | .clear _ _, a, b => a = b
  | .complete _, a, b => a.veiled = b.veiled
  | .cancel _, a, b => a = b
  | .detail _, a, b => a.session.veiled = b.session.veiled ∧ List.Forall₂ ReviewItem.Alike a.items b.items
  | .list _, a, b => a.1.map Session.veiled = b.1.map Session.veiled ∧ a.2 = b.2

/-- **An operation tells nothing about keys**, apart from grades, scores and the right answers in reviews. -/
theorem keyless_call (o : Operation) : Keyless o.Alike o.call o.call := by
  cases o with
  | create user r chance => exact keyless_create user r chance
  | get token => exact keyless_get token
  | questions token => exact keyless_questions token
  | submit token sequence payload => exact keyless_submit token sequence payload
  | clear token sequence => exact keyless_clear token sequence
  | complete token => exact keyless_complete token
  | cancel token => exact keyless_cancel token
  | detail token => exact keyless_detail token
  | list f => exact keyless_list f

end Operation

end Exam

end Proctor
