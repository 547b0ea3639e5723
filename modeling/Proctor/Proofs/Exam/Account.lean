import Proctor.Proofs.Exam.Effect
import Proctor.Proofs.Exam.View

/-!
# What an operation tells

What comes of an operation is an account of what its caller has seen and done. Every session that
is shown was stored like that at some time, an error that names the state of a session is about
the one that the caller had found, a receipt stands for an answer that was stored, and a
cancellation for a removal (`Operation.accounts_call`).
-/

set_option autoImplicit false

namespace Proctor

namespace Exam

open Call

variable {i : Nat} {v : View}

/-! ## Finding a session -/

theorem accounts_find (token : String) (new : subject? v.deeds = none) :
    Accounts i (fun s u => u.Knows s ∧ s.token = token) (find token) v := by
  refine accounts_bind (accounts_ask fun _ _ => trivial) ?_
  rintro s? w ⟨u, ⟨⟨follows, -⟩, deeds⟩, -, eq⟩
  cases eq
  refine accounts_imp (accounts_orFail rfl) ?_
  rintro s _ ⟨found, rfl⟩
  obtain ⟨stored, named⟩ := follows.valid.consistent.findByToken?_iff.1 found
  have subject : (subject? u.deeds).or ((u.tables.findByToken? token).map (·.id)) = some s.id := by
    rw [deeds, new, show u.tables.findByToken? token = some s from found]
    rfl
  exact ⟨⟨Tables.recalls_of_stored follows.valid stored, subject⟩, named⟩

/-- A session that was seen past its deadline has ended when it is told of next. -/
theorem accounts_markTimedOut {s : Session} {now : Instant} (seen : v.tables.Recalls s) (expired : s.isExpired now) :
    Accounts i (fun s' u => (u.tables.Recalls s' ∧ s'.toTerms = s.toTerms ∧ s'.id = s.id) ∧ s'.status ≠ .ongoing)
      (ask (.markTimedOut s.id now)) v := by
  refine accounts_imp (accounts_ask fun u rests => (seen.later rests.follows.evolves).fair_markTimedOut expired) ?_
  rintro s' w ⟨u, rests, grows, eq⟩
  have made : u.tables.markTimedOut s.id now = (.ok s', w.tables) :=
    World.markTimedOut_of_handle (View.handle_eq eq).1
  have stored := Tables.find?_of_markTimedOut made
  have seen := (seen.later rests.follows.evolves).later grows.follows.evolves
  have valid := grows.follows.valid
  exact ⟨⟨Tables.recalls_of_stored valid stored, seen.terms stored, valid.consistent.session_id stored⟩,
    Tables.status_of_markTimedOut made⟩

theorem accounts_observe {s : Session} (seen : v.tables.Recalls s) :
    Accounts i (fun s' u => u.tables.Recalls s' ∧ s'.toTerms = s.toTerms ∧ s'.id = s.id) (observe s) v := by
  refine accounts_bind (accounts_keep (View.lasting_recalls s) seen accounts_now) ?_
  rintro now u ⟨seen, -⟩
  split
  · rename_i expired
    exact accounts_imp (accounts_markTimedOut seen expired) fun _ _ told => told.1
  · exact ⟨seen, rfl, rfl⟩

theorem accounts_look (token : String) (new : subject? v.deeds = none) :
    Accounts i (fun s u => u.Knows s ∧ s.token = token) (look token) v := by
  refine accounts_bind (accounts_find token new) ?_
  rintro s u ⟨known, named⟩
  refine accounts_imp (accounts_keep (View.lasting_subject s.id) known.subject (accounts_observe known.recalls)) ?_
  rintro s' w ⟨subject, seen, terms, same⟩
  exact ⟨⟨seen, same ▸ subject⟩, (congrArg Terms.token terms).trans named⟩

theorem accounts_lookById {id : Int} (subject : subject? v.deeds = some id) :
    Accounts i (fun s u => u.Knows s) (lookById id) v := by
  refine accounts_bind (accounts_keep (View.lasting_subject id) subject (accounts_ask fun _ _ => trivial)) ?_
  rintro s? w ⟨subject, u, rests, -, eq⟩
  cases eq
  refine accounts_bind (accounts_orFail rfl) ?_
  rintro s _ ⟨stored, rfl⟩
  have seen := Tables.recalls_of_stored rests.follows.valid stored
  refine accounts_imp (accounts_keep (View.lasting_subject id) subject (accounts_observe seen)) ?_
  rintro s' w ⟨subject, seen, -, same⟩
  rw [← rests.follows.valid.consistent.session_id stored, ← same] at subject
  exact ⟨seen, subject⟩

theorem told?_of_closedFault {s : Session} {e : Error} (h : closedFault? s = some e) {status : Status}
    (told : e.told? = some status) : s.status = status := by
  unfold closedFault? at h
  split at h <;> cases h
  · exact (by assumption : s.status = .timeout).trans (Option.some.inj told)
  · exact Option.some.inj told

theorem accounts_ensureOngoing {s : Session} (known : v.Knows s) :
    Accounts i (fun _ u => s.status = .ongoing ∧ u = v) (ofExcept (ensureOngoing s)) v := by
  cases ensured : ensureOngoing s with
  | ok _ => exact ⟨status_of_ensureOngoing ensured, rfl⟩
  | error e =>
    unfold ensureOngoing at ensured
    split at ensured <;> cases ensured
    rename_i fault
    exact fun status told => ⟨s, known, told?_of_closedFault fault told⟩

/-- Whoever is told why a change was not taken is told of the session that it found. -/
theorem accounts_rejection {α : Type} {mid : α → View → Prop} {id : Int} (subject : subject? v.deeds = some id) :
    Accounts i mid (rejection id) v := by
  refine accounts_bind (accounts_lookById subject) fun s u known => ?_
  split
  · rename_i fault
    exact fun status told => ⟨s, known, told?_of_closedFault fault told⟩
  · exact accounts_failed rfl

/-! ## Answering -/

theorem accounts_openSlot (token : String) (sequence : Int) (new : subject? v.deeds = none) :
    Accounts i (fun found u => (u.Knows found.1 ∧ u.tables.RecallsSlot found.2) ∧
      found.1.token = token ∧ found.2.session = found.1.id ∧ found.2.sequence = sequence) (openSlot token sequence) v := by
  refine accounts_bind (accounts_look token new) ?_
  rintro s u ⟨known, named⟩
  refine accounts_bind (accounts_ensureOngoing known) ?_
  rintro _ _ ⟨-, rfl⟩
  refine accounts_bind (accounts_keep (View.lasting_knows s) known (accounts_ask fun _ _ => trivial)) ?_
  rintro slot? w ⟨known, x, rests, grows, eq⟩
  cases eq
  refine accounts_bind (accounts_orFail rfl) ?_
  rintro slot _ ⟨found, rfl⟩
  have listed := List.mem_of_find?_eq_some found
  have numbered : slot.sequence = sequence := by simpa using List.find?_some found
  obtain ⟨held, own⟩ := rests.follows.valid.consistent.mem_slotsOf_iff.1 listed
  exact ⟨⟨known, x.tables, rests.follows.valid, held, .refl rests.follows.valid⟩, named, own, numbered⟩

/-- An answer that is stored goes to the slot that was seen, in the session that was seen. -/
theorem answers_of_record {u w : View} {a : Answer} {a? : Option Answer} {s : Session} {slot : Slot} {payload : Json.Value}
    (valid : u.tables.Valid) (seen : u.tables.Recalls s) (kept : u.tables.RecallsSlot slot) (own : slot.session = s.id)
    (here : a.slot = slot.id) (reads : u.world.catalog.Reads slot payload a)
    (eq : View.handle i (.record a) u = (.ok a?, w)) :
    a? = none ∨ a? = some a ∧ ∃ s', Deed.Answers ⟨i, u.world, .record a⟩ s.token slot.sequence payload
      ⟨slot.sequence, a.isCorrect, a.answeredAt⟩ s' slot a := by
  obtain h | ⟨taken, h⟩ := u.tables.record_cases a <;> cases eq
  · exact .inl (congrArg Prod.fst h)
  refine .inr ⟨congrArg Prod.fst h, ?_⟩
  obtain ⟨held, s', at_slot, stored, -, -⟩ := Tables.takesAnswer_iff.1 taken
  rw [here] at at_slot
  obtain rfl := kept.eq at_slot
  rw [own] at stored
  have named : s'.token = s.token := congrArg Terms.token (seen.terms stored)
  have same := valid.consistent.session_id stored
  have found := valid.consistent.findByToken?_iff.2 ⟨same.symm ▸ stored, named⟩
  have listed := valid.consistent.mem_slotsOf_iff.2 ⟨at_slot, own.trans same.symm⟩
  exact ⟨s', rfl, taken, found, listed, rfl, here, reads, rfl⟩

theorem accounts_submit (token : String) (sequence : Int) (payload : Json.Value) (new : subject? v.deeds = none) :
    Accounts i (fun receipt u => u.Answered token sequence payload receipt) (submit token sequence payload) v := by
  refine accounts_bind (accounts_openSlot token sequence new) ?_
  rintro ⟨s, slot⟩ u ⟨seen, named, own, numbered⟩
  have lasting := (View.lasting_knows s).and (View.lasting_recallsSlot slot)
  refine accounts_bind (accounts_keep lasting seen (accounts_ask fun _ _ => trivial)) ?_
  rintro question u ⟨seen, x, -, grows, eq⟩
  have asked : u.world.catalog.get? slot.question = some question := by
    rw [grows.catalog]
    exact World.get?_of_handle (View.handle_eq eq).1
  refine accounts_bind (accounts_ofExcept (silent_detailsFor question slot.kind)) ?_
  rintro details u ⟨fits, rfl⟩
  refine accounts_bind (accounts_ofExcept (silent_mapError_input _)) ?_
  rintro value u ⟨accepted, rfl⟩
  have lasting := lasting.and (View.lasting_catalog fun c => c.get? slot.question = some question)
  refine accounts_bind (accounts_keep lasting ⟨seen, asked⟩ accounts_now) ?_
  rintro now u ⟨seen, -⟩
  refine accounts_bind (accounts_keep lasting seen (accounts_ask fun _ _ => trivial)) ?_
  rintro a? w ⟨⟨⟨known, -⟩, -⟩, x, rests, -, eq⟩
  obtain ⟨⟨met, kept⟩, asked⟩ := lasting u x rests.grows seen
  have reads : x.world.catalog.Reads slot payload ⟨slot.id, value, details.grades value, now⟩ :=
    ⟨question, details, asked, fits, World.eq_ok_of_mapError accepted, rfl⟩
  obtain rfl | ⟨rfl, s', stored⟩ := answers_of_record rests.follows.valid met.recalls kept own rfl reads eq
  · exact accounts_rejection known.subject
  · rw [named, numbered] at stored
    exact ⟨_, _, s', slot, _, (View.handle_eq eq).2, stored⟩

theorem accounts_clear (token : String) (sequence : Int) (new : subject? v.deeds = none) :
    Accounts i (fun _ _ => True) (clear token sequence) v := by
  refine accounts_bind (accounts_openSlot token sequence new) ?_
  rintro ⟨s, slot⟩ u ⟨⟨known, -⟩, -⟩
  refine accounts_bind (accounts_keep (View.lasting_knows s) known accounts_now) ?_
  rintro now u ⟨known, -⟩
  refine accounts_bind (accounts_keep (View.lasting_knows s) known (accounts_asked fun _ => trivial)) ?_
  rintro removal u ⟨known, -⟩
  split
  · exact accounts_rejection known.subject
  · trivial
  · trivial

/-! ## Ending -/

/-- A session that has ended does not take changes. -/
theorem accounts_ifOngoing {s : Session} {mid : Session → View → Prop} (known : v.Knows s) (finished : s.status ≠ .ongoing) :
    Accounts i mid (ifOngoing s) v := by
  refine accounts_bind (accounts_ensureOngoing known) ?_
  rintro _ _ ⟨ongoing, -⟩
  exact absurd ongoing finished

theorem accounts_settled {s : Session} (known : v.Knows s) :
    Accounts i (fun s' u => u.Knows s' ∧ s'.status = .completed) (settled s) v := by
  unfold settled
  split
  · rename_i completed
    exact ⟨known, completed⟩
  · rename_i fault _
    exact fun status told => ⟨s, known, told?_of_closedFault fault told⟩
  · exact accounts_failed rfl

/-- A completion that is not refused gives the session as it is stored then. -/
theorem completed_of_complete {u w : View} {id : Int} {now : Instant} {done? : Option Session}
    (eq : View.handle i (.complete id now) u = (.ok done?, w)) :
    done? = none ∨ ∃ s, done? = some s ∧ w.tables.find? id = some s ∧ s.status = .completed := by
  obtain ⟨-, h⟩ | ⟨r, -, -, h⟩ := u.tables.complete_cases id now <;> cases eq
  · exact .inl (congrArg Prod.fst h)
  · refine .inr ⟨_, congrArg Prod.fst h, ?_, rfl⟩
    show (u.tables.complete id now).2.find? id = _
    rw [h, Tables.find?_ended, if_pos rfl]

theorem accounts_finish {s : Session} (known : v.Knows s) :
    Accounts i (fun s' u => u.Knows s' ∧ s'.status = .completed) (finish s) v := by
  refine accounts_bind (accounts_keep (View.lasting_knows s) known accounts_now) ?_
  rintro now u ⟨known, -⟩
  split
  · rename_i expired
    have marked := accounts_markTimedOut (i := i) known.recalls expired
    refine accounts_bind (accounts_keep (View.lasting_subject s.id) known.subject marked) ?_
    rintro s' u ⟨subject, ⟨seen, -, same⟩, finished⟩
    exact accounts_ifOngoing ⟨seen, same ▸ subject⟩ finished
  · refine accounts_bind (accounts_keep (View.lasting_knows s) known (accounts_ask fun _ _ => trivial)) ?_
    rintro done? w ⟨known, x, rests, grows, eq⟩
    obtain rfl | ⟨r, rfl, stored, completed⟩ := completed_of_complete eq
    · exact accounts_bind (accounts_lookById known.subject) fun r u known => accounts_settled known
    · have same := grows.follows.valid.consistent.session_id stored
      exact ⟨⟨Tables.recalls_of_stored grows.follows.valid stored, same.symm ▸ known.subject⟩, completed⟩

theorem accounts_complete (token : String) (new : subject? v.deeds = none) :
    Accounts i (fun s u => u.Knows s ∧ s.status = .completed) (complete token) v := by
  refine accounts_bind (accounts_find token new) ?_
  rintro s u ⟨known, -⟩
  split
  · rename_i completed
    exact ⟨known, completed⟩
  · exact accounts_finish known
  · rename_i finished
    exact accounts_ifOngoing known finished

theorem accounts_cancel (token : String) (new : subject? v.deeds = none) :
    Accounts i (fun _ u => u.Cancelled) (cancel token) v := by
  refine accounts_bind (accounts_look token new) ?_
  rintro s u ⟨known, -⟩
  split
  · refine accounts_bind (accounts_keep (View.lasting_knows s) known (accounts_ask fun _ _ => trivial)) ?_
    rintro deleted w ⟨known, x, -, -, eq⟩
    split
    · rename_i done
      have removed : (x.tables.deleteOngoing s.id).1 = deleted := Except.ok.inj (congrArg Prod.fst (View.handle_eq eq).1)
      have did : (⟨i, x.world, .deleteOngoing s.id⟩ : Deed) ∈ w.deeds := (View.handle_eq eq).2 ▸ List.mem_cons_self
      exact ⟨s.id, known.subject, _, did, rfl, removed.trans done⟩
    · exact accounts_failed rfl
  · intro status told
    exact ⟨s, known, Option.some.inj told⟩

/-! ## Looking -/

theorem accounts_join (session : Int) : Accounts i (fun _ _ => True) (join session) v := by
  refine accounts_bind (accounts_asked fun _ => trivial) fun slots u _ => ?_
  refine accounts_bind (accounts_asked fun _ => trivial) fun questions u _ => ?_
  exact accounts_bind (accounts_asked fun _ => trivial) fun answers u _ => trivial

theorem accounts_remaining (s : Session) : Accounts i (fun _ _ => True) (remaining s) v := by
  unfold remaining
  split
  · trivial
  · exact accounts_bind accounts_now fun _ _ _ => trivial

theorem accounts_get (token : String) (new : subject? v.deeds = none) :
    Accounts i (fun x u => u.Knows x.session) (get token) v := by
  refine accounts_bind (accounts_look token new) ?_
  rintro s u ⟨known, -⟩
  refine accounts_bind (accounts_keep (View.lasting_knows s) known (accounts_asked fun _ => trivial)) ?_
  rintro answers u ⟨known, -⟩
  exact accounts_bind (accounts_keep (View.lasting_knows s) known (accounts_remaining s)) fun left u kept => kept.1

theorem accounts_questions (token : String) (new : subject? v.deeds = none) :
    Accounts i (fun _ _ => True) (questions token) v := by
  refine accounts_bind (accounts_look token new) ?_
  rintro s u ⟨known, -⟩
  refine accounts_bind (accounts_ensureOngoing known) fun _ u _ => ?_
  refine accounts_bind (accounts_join s.id) fun joined u _ => ?_
  refine accounts_bind (accounts_ofExcept (silent_mapM (silent_sheetItem joined) joined.slots)) fun items u _ => ?_
  exact accounts_bind (accounts_remaining s) fun left u _ => trivial

theorem accounts_detail (token : String) (new : subject? v.deeds = none) :
    Accounts i (fun x u => u.Knows x.session) (detail token) v := by
  refine accounts_bind (accounts_look token new) ?_
  rintro s u ⟨known, -⟩
  split
  · refine accounts_bind (accounts_keep (View.lasting_knows s) known (accounts_join s.id)) ?_
    rintro joined u ⟨known, -⟩
    refine accounts_bind (accounts_ofExcept (silent_mapM (silent_reviewItem joined) joined.slots)) ?_
    rintro items _ ⟨-, rfl⟩
    exact known
  · exact accounts_failed rfl

theorem lasting_forall_recalls (sessions : List Session) : View.Lasting fun v => ∀ s ∈ sessions, v.tables.Recalls s :=
  fun v u grows seen s listed => View.lasting_recalls s v u grows (seen s listed)

theorem accounts_observeAll {sessions : List Session} (seen : ∀ s ∈ sessions, v.tables.Recalls s) :
    Accounts i (fun shown u => ∀ s ∈ shown, u.tables.Recalls s) (observeAll sessions) v := by
  induction sessions generalizing v with
  | nil => exact fun s listed => by cases listed
  | cons s rest ih =>
    obtain ⟨here, others⟩ := List.forall_mem_cons.1 seen
    refine accounts_bind (accounts_keep (lasting_forall_recalls rest) others (accounts_observe here)) ?_
    rintro s' u ⟨others, here, -⟩
    refine accounts_bind (accounts_keep (View.lasting_recalls s') here (ih others)) ?_
    rintro rest' u ⟨here, others⟩
    exact List.forall_mem_cons.2 ⟨here, others⟩

/-- What is on a page is stored. -/
theorem stored_of_mem_list {t : Tables} {f : Filter} {s : Session} (valid : t.Valid) (onPage : s ∈ (t.list f).1) :
    t.find? s.id = some s := by
  obtain ⟨id, stored⟩ := mem_selection (List.mem_of_mem_drop (List.mem_of_mem_take onPage))
  exact valid.consistent.session_id stored ▸ stored

theorem accounts_list (f : Filter) : Accounts i (fun x u => ∀ s ∈ x.1, u.tables.Recalls s) (list f) v := by
  refine accounts_bind (accounts_ask fun _ _ => trivial) ?_
  rintro ⟨page, total⟩ w ⟨u, rests, -, eq⟩
  cases eq
  have seen : ∀ s ∈ (u.tables.list f).1, u.tables.Recalls s := fun s onPage =>
    Tables.recalls_of_stored rests.follows.valid (stored_of_mem_list rests.follows.valid onPage)
  exact accounts_bind (accounts_observeAll seen) fun shown u seen => seen

/-! ## Opening -/

theorem accounts_create (user : Uuid) {r : Request} (chance : Chance) (fits : r.count ≤ Text.Width.signed32.greatest) :
    Accounts i (fun s u => u.tables.Recalls s) (create user r chance) v := by
  have sound : Accounts i (fun _ _ => r.faults = []) (within r.faults) v := by
    unfold within
    split
    · rename_i none
      exact List.isEmpty_iff.1 none
    · exact accounts_failed rfl
  refine accounts_bind sound fun _ u sound => ?_
  refine accounts_bind (accounts_asked fun _ => trivial) fun known u _ => ?_
  split
  · exact accounts_failed rfl
  refine accounts_bind (accounts_asked fun _ => trivial) fun pool u _ => ?_
  refine accounts_bind (accounts_ofExcept (silent_draw pool r.count.toNat chance.words)) ?_
  rintro ⟨drawn, used⟩ _ ⟨eq, -⟩
  refine accounts_bind accounts_now fun now u _ => ?_
  refine accounts_imp (accounts_ask fun _ _ => opening_of_draw sound fits eq now) ?_
  rintro s w ⟨x, -, grows, eq⟩
  have stored := Tables.find?_of_create (World.create_of_handle (View.handle_eq eq).1)
  exact Tables.recalls_of_stored grows.follows.valid stored

namespace Operation

/-- The sessions that a result shows. -/
def shown : (o : Operation) → o.Result → List Session
  | .create _ _ _, s => [s]
  | .get _, x => [x.session]
  | .complete _, s => [s]
  | .detail _, x => [x.session]
  | .list _, x => x.1
  | _, _ => []

/-- What a result proves beside that. -/
def Proves : (o : Operation) → o.Result → View → Prop
  | .submit token sequence payload, receipt, v => v.Answered token sequence payload receipt
  | .complete _, s, _ => s.status = .completed
  | .cancel _, _, v => v.Cancelled
  | _, _, _ => True

/-- The result is a true account. -/
structure Vouches (o : Operation) (a : o.Result) (v : View) : Prop where
  shown : ∀ s ∈ o.shown a, v.tables.Recalls s
  proves : o.Proves a v

/-- An account stays true whatever others do. -/
theorem tells_of_rests {o : Operation} {r : Except Error o.Result} {v u : View} (h : Tells o.Vouches r v) (rests : v.Rests u) :
    Tells o.Vouches r u := by
  cases r with
  | error e =>
    intro status told
    obtain ⟨s, known, same⟩ := h status told
    exact ⟨s, View.lasting_knows s v u rests.grows known, same⟩
  | ok a =>
    refine ⟨lasting_forall_recalls (o.shown a) v u rests.grows h.shown, ?_⟩
    have proves := h.proves
    cases o <;> simp only [Proves, View.Answered, View.Cancelled, rests.deeds] at proves ⊢ <;> exact proves

/-- **Operations give true accounts**, whatever others do. -/
theorem accounts_call {o : Operation} (fits : o.fits) (new : subject? v.deeds = none) : Accounts i o.Vouches o.call v := by
  cases o with
  | create user r chance =>
    have count : r.count ≤ Text.Width.signed32.greatest := by
      simp only [Operation.fits, Text.Width.holds, Bool.and_eq_true, decide_eq_true_eq] at fits
      exact fits.2.2
    exact accounts_imp (accounts_create user chance count) fun s u seen => ⟨by simpa [shown] using seen, trivial⟩
  | get token =>
    exact accounts_imp (accounts_get token new) fun x u known => ⟨by simpa [shown] using known.recalls, trivial⟩
  | questions token => exact accounts_imp (accounts_questions token new) fun _ _ _ => ⟨by simp [shown], trivial⟩
  | submit token sequence payload =>
    exact accounts_imp (accounts_submit token sequence payload new) fun _ _ answered => ⟨by simp [shown], answered⟩
  | clear token sequence => exact accounts_imp (accounts_clear token sequence new) fun _ _ _ => ⟨by simp [shown], trivial⟩
  | complete token =>
    exact accounts_imp (accounts_complete token new) fun s u told => ⟨by simpa [shown] using told.1.recalls, told.2⟩
  | cancel token => exact accounts_imp (accounts_cancel token new) fun _ _ cancelled => ⟨by simp [shown], cancelled⟩
  | detail token =>
    exact accounts_imp (accounts_detail token new) fun x u known => ⟨by simpa [shown] using known.recalls, trivial⟩
  | list f => exact accounts_imp (accounts_list f) fun x u seen => ⟨seen, trivial⟩

/-- Operations leave worlds that can follow, whatever others do. -/
theorem follows_call {o : Operation} (fits : o.fits) (w : World) :
    o.call.Meets World.handle World.Follows World.Follows (fun _ _ => True) w :=
  follows_of_accounts (accounts_call (i := 0) (v := ⟨w, []⟩) fits rfl)

end Operation

end Exam

end Proctor
