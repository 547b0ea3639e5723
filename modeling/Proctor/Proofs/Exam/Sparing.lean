import Proctor.Proofs.Exam.Effect

/-!
# Operations that blame the request

If only the clock moves meanwhile, an operation that gives up for another reason than what is stored has changed nothing
(`Operation.sparing_call`): it looks at the request before it writes, and what it finds wrong later it says of the session.
-/

set_option autoImplicit false

namespace Proctor.Exam

open Call

/-- What came of a call has `mid`, or it is an error that tells of what is stored, or the tables are `t`. -/
def Spares {α : Type} (t : Tables) (mid : α → World → Prop) : Except Error α → World → Prop
  | .ok a, v => mid a v
  | .error e, v => e.Stored ∨ v.tables = t

/-- Carried out alone, the call gives a value with `mid`, or blames what is stored, or leaves the tables `t` as they are. -/
abbrev Sparing {α : Type} (t : Tables) (mid : α → World → Prop) (c : Call α) (w : World) : Prop :=
  c.Meets World.handle World.Still (fun _ _ => True) (Spares t mid) w

variable {α β : Type} {t : Tables} {w : World} {p : Access → Prop}

theorem sparing_bind {mid : α → World → Prop} {post : β → World → Prop} {c : Call α} {f : α → Call β}
    (first : Sparing t mid c w) (second : ∀ a v, mid a v → Sparing t post (f a) v) : Sparing t post (c >>= f) w :=
  meets_bind first second fun _ _ spared => spared

theorem sparing_failed {mid : α → World → Prop} {e : Error} (here : w.tables = t) : Sparing t mid (failed e) w := .inr here

theorem sparing_ofExcept {e : Except Error α} (here : w.tables = t) :
    Sparing t (fun a v => e = .ok a ∧ v.tables = t) (ofExcept e) w := by
  cases e with
  | ok a => exact ⟨rfl, here⟩
  | error e => exact .inr here

/-- An access that changes no table. -/
theorem sparing_ask {q : Access} (reads : q.Reads) (here : w.tables = t) :
    Sparing t (fun _ v => v.tables = t) (ask q) w := by
  refine meets_ask fun v still => ⟨trivial, ?_⟩
  have unchanged := (World.tables_handle_of_reads reads v).trans (still.trans here)
  generalize v.handle q = outcome at unchanged
  obtain ⟨e | answer, u⟩ := outcome
  · exact .inr unchanged
  · exact unchanged

theorem stored_of_confined {c : Call α} (confined : c.Confined p Error.Stored) :
    c.Meets World.handle World.Still (fun _ _ => True) (fun r _ => ∀ e, r = .error e → e.Stored) w := by
  induction c generalizing w with
  | done a => exact nofun
  | failed e =>
    rintro _ ⟨⟩
    exact confined
  | step q next ih =>
    intro u still
    refine ⟨trivial, ?_⟩
    split
    · exact ih _ (confined.2 _)
    · rename_i eq
      rintro _ ⟨⟩
      exact World.stored_of_handle eq

/-- A call that gives up only because of what is stored. -/
theorem sparing_of_confined {c : Call α} (confined : c.Confined p Error.Stored) : Sparing t (fun _ _ => True) c w := by
  refine (stored_of_confined confined).imp ?_
  rintro (e | a) v stored
  · exact .inl (stored e rfl)
  · trivial

theorem sparing_openSlot (token : String) (sequence : Int) (here : w.tables = t) :
    Sparing t (fun _ v => v.tables = t) (openSlot token sequence) w := by
  refine ((yields_openSlot token sequence here).and (stored_of_confined (plain_openSlot token sequence))).imp ?_
  rintro (e | found) v ⟨settled, stored⟩
  · exact .inl (stored e rfl)
  · exact settled.1

/-- An answer that is not accepted is looked at before anything is written. -/
theorem sparing_submit (token : String) (sequence : Int) (payload : Json.Value) (here : w.tables = t) :
    Sparing t (fun _ _ => True) (submit token sequence payload) w := by
  refine sparing_bind (sparing_openSlot token sequence here) fun found v here => ?_
  refine sparing_bind (sparing_ask trivial here) fun question v here => ?_
  refine sparing_bind (sparing_ofExcept here) fun details v ⟨_, here⟩ => ?_
  refine sparing_bind (sparing_ofExcept here) fun value v ⟨_, here⟩ => ?_
  refine sparing_of_confined (p := fun _ => True) ?_
  refine confined_bind (confined_now.2 trivial) fun now => confined_bind (confined_ask.2 trivial) fun a? => ?_
  cases a? with
  | some a => exact confined_pure
  | none => exact (plain_rejection found.1.id).imp (fun _ _ => trivial) fun _ => id

/-- A request is looked at before a session is stored. -/
theorem sparing_create (user : Uuid) (r : Request) (chance : Chance) (here : w.tables = t) :
    Sparing t (fun _ _ => True) (create user r chance) w := by
  have sound : Sparing t (fun _ v => v.tables = t) (within r.faults) w := by
    unfold within
    split
    · exact here
    · exact sparing_failed here
  refine sparing_bind sound fun _ v here => ?_
  refine sparing_bind (sparing_ask trivial here) fun known v here => ?_
  split
  · exact sparing_failed here
  refine sparing_bind (sparing_ask trivial here) fun pool v here => ?_
  refine sparing_bind (sparing_ofExcept here) fun drawn v ⟨_, here⟩ => ?_
  exact sparing_of_confined (p := fun _ => True)
    (confined_bind (confined_now.2 trivial) fun now => confined_ask.2 trivial)

namespace Operation

/-- **An operation that blames the request has changed nothing.** -/
theorem sparing_call (o : Operation) (w : World) : Sparing w.tables (fun _ _ => True) o.call w := by
  cases o with
  | create user r chance => exact sparing_create user r chance rfl
  | submit token sequence payload => exact sparing_submit token sequence payload rfl
  | clear token sequence => exact sparing_of_confined (confined_clear token sequence)
  | get token => exact sparing_of_confined (plain_get token)
  | questions token => exact sparing_of_confined (plain_questions token)
  | complete token => exact sparing_of_confined (plain_complete token)
  | cancel token => exact sparing_of_confined (plain_cancel token)
  | detail token => exact sparing_of_confined (plain_detail token)
  | list f => exact sparing_of_confined (confined_list f (p := fun _ => True) (fun _ _ => trivial) trivial)

end Operation

end Proctor.Exam
