import Proctor.Proofs.Exam.Account
import Proctor.Proofs.Exam.Refusal
import Proctor.Proofs.Store.Suited

/-!
# Operations and the kinds of answers

Whatever others do, an operation stores answers of the kinds of their slots only (`Operation.suits_call`): a
submission has seen the slot and has had its answer accepted by the question of the slot, and slots do not change.
-/

set_option autoImplicit false

namespace Proctor.Exam

open Call

variable {α : Type} {i : Nat} {v : View}

/-- Among others, the call of caller `i` keeps answers of the kinds of their slots. -/
abbrev Suiting (i : Nat) (post : Except Error α → View → Prop) (c : Call α) (v : View) : Prop :=
  c.Meets (View.handle i) View.Rests (fun u w => u.tables.Suited → w.tables.Suited) post v

theorem suits_of_slot? {q : Access} (none : q.slot? = none) (t : Tables) : q.Suits t := by
  cases q with
  | record a => cases none
  | _ => trivial

theorem suits_of_quiet {q : Access} (quiet : q.Quiet) : ∀ t, q.Suits t := suits_of_slot? quiet.slot?_eq_none

theorem suits_handle {u : View} {q : Access} (filed : u.tables.Filed) (suits : q.Suits u.tables) :
    u.tables.Suited → (View.handle i q u).2.tables.Suited := fun suited => suited.handle filed suits

/-- Whoever stores no answer keeps them. -/
theorem suiting_of_only {c : Call α} (only : c.Only fun q => ∀ t, q.Suits t) (filed : v.tables.Filed) :
    Suiting i (fun _ u => u.tables.Filed) c v := by
  refine only.meets (fun _ u _ rests => rests.follows.valid.consistent.filed) (fun q u suits filed => ?_) filed
  exact ⟨suits_handle filed (suits u.tables), filed.handle q⟩

theorem suiting_of_quiet {c : Call α} (only : c.Only Access.Quiet) (filed : v.tables.Filed) :
    Suiting i (fun _ u => u.tables.Filed) c v :=
  suiting_of_only (only.imp fun _ => suits_of_quiet) filed

/-- Whoever stores no answer and gives a true account. -/
theorem suiting_of_accounts {mid : α → View → Prop} {c : Call α} (only : c.Only Access.Quiet) (filed : v.tables.Filed)
    (accounts : Accounts i mid c v) : Suiting i (fun r u => u.tables.Filed ∧ Tells mid r u) c v :=
  (suiting_of_quiet only filed).and accounts

theorem suiting_ofExcept {r : Except Error α} : Suiting i (fun r' u => r' = r ∧ u = v) (ofExcept r) v := by
  cases r <;> exact ⟨rfl, rfl⟩

theorem suiting_submit (token : String) (sequence : Int) (payload : Json.Value) (filed : v.tables.Filed)
    (new : subject? v.deeds = none) : Suiting i (fun _ u => u.tables.Filed) (submit token sequence payload) v := by
  refine meets_bind (suiting_of_accounts (plain_openSlot token sequence).quiet filed (accounts_openSlot token sequence new)) ?_
    fun _ _ told => told.1
  rintro ⟨s, slot⟩ u ⟨filed, ⟨-, kept⟩, -⟩
  have lasting := View.lasting_recallsSlot slot
  refine meets_bind (suiting_of_accounts (only_ask.2 trivial) filed (accounts_keep lasting kept (accounts_asked fun _ => trivial))) ?_
    fun _ _ told => told.1
  rintro question u ⟨filed, kept, -⟩
  refine meets_bind suiting_ofExcept ?_ fun _ _ same => same.2 ▸ filed
  rintro details _ ⟨fits, rfl⟩
  refine meets_bind suiting_ofExcept ?_ fun _ _ same => same.2 ▸ filed
  rintro value _ ⟨accepted, rfl⟩
  have kind : value.kind = slot.kind := by
    obtain ⟨same, rfl⟩ := Question.detailsFor_eq_ok_iff.1 fits.symm
    exact (Details.kind_of_accept (World.eq_ok_of_mapError accepted.symm)).trans same
  refine meets_bind (suiting_of_accounts (only_now.2 trivial) filed (accounts_keep lasting kept accounts_now)) ?_
    fun _ _ told => told.1
  rintro now u ⟨filed, kept, -⟩
  have stored : Suiting i (fun _ u => u.tables.Filed) (ask (.record ⟨slot.id, value, details.grades value, now⟩)) u := by
    refine meets_ask fun w rests => ?_
    have filed := rests.follows.valid.consistent.filed
    refine ⟨suits_handle filed fun {held} at_slot => ?_, filed.handle _⟩
    -- the slot is the one that was seen
    obtain rfl := (View.lasting_recallsSlot slot u w rests.grows kept).eq at_slot
    exact kind
  refine meets_bind stored (fun a? u filed => ?_) fun _ _ filed => filed
  cases a? with
  | some a => exact filed
  | none => exact suiting_of_quiet (plain_rejection s.id).quiet filed

theorem suiting_clear (token : String) (sequence : Int) (filed : v.tables.Filed) :
    Suiting i (fun _ u => u.tables.Filed) (clear token sequence) v := by
  refine suiting_of_only ?_ filed
  refine only_bind ((plain_openSlot token sequence).quiet.imp fun _ => suits_of_quiet) fun found => ?_
  refine only_bind (only_now.2 fun _ => trivial) fun now => ?_
  refine only_bind (only_ask.2 fun _ => trivial) fun removal => ?_
  cases removal with
  | closed => exact (plain_rejection found.1.id).quiet.imp fun _ => suits_of_quiet
  | removed => exact only_pure
  | absent => exact only_pure

namespace Operation

/-- **Operations store answers of the kinds of their slots only**, whatever others do. -/
theorem suits_call (o : Operation) (filed : v.tables.Filed) (new : subject? v.deeds = none) :
    Suiting i (fun _ u => u.tables.Filed) o.call v := by
  cases o with
  | create user r chance => exact suiting_of_only ((only_create user r chance).imp fun _ h => suits_of_slot? h.slot?_eq_none) filed
  | submit token sequence payload => exact suiting_submit token sequence payload filed new
  | clear token sequence => exact suiting_clear token sequence filed
  | get token => exact suiting_of_quiet (plain_get token).quiet filed
  | questions token => exact suiting_of_quiet (plain_questions token).quiet filed
  | complete token => exact suiting_of_quiet (plain_complete token).quiet filed
  | cancel token => exact suiting_of_quiet (plain_cancel token).quiet filed
  | detail token => exact suiting_of_quiet (plain_detail token).quiet filed
  | list f => exact suiting_of_quiet (only_list f) filed

end Operation

end Proctor.Exam
