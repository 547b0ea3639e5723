import Proctor.Proofs.Course.Scoring
import Proctor.Proofs.Exam.Isolation
import Mathlib.Data.List.Induction

/-!
# Sessions that leave no trace

A session is opened, all kinds of calls are made on its token, and it is cancelled. Then the tables are what they were before it was
opened, apart from the counters (`undone_by_cancel`), and nobody finds it by its token any more, until the token is given out again.
What one call on the token may touch is the session and nothing else (`Hosts.perform`); that
nothing is left of the session follows from how the rows refer to each other (`Hosts.eq_of_gone`).
-/

set_option autoImplicit false

namespace Proctor

open Exam

variable {token : String}

/-! ## Calls on the token -/

section Calls

variable {w : World} {t₀ : Tables} {id : Int} {o : Operation}

/-- **One call on the token** touches the session only. -/
theorem Tables.Hosts.perform (h : t₀.Hosts token id w.tables) (addressed : o.token? = some token) (clock : Nat → Instant) :
    t₀.Hosts token id (w.perform o clock).2.tables := by
  have twins : Ticking.Twins token id t₀ t₀ ⟨w, clock⟩ ⟨w, clock⟩ := ⟨rfl, rfl, h, h, rfl, rfl, fun _ => rfl⟩
  exact (Operation.isolates_call addressed _ _ twins).2.tables.left

/-- **Any calls on the token** touch the session only. -/
theorem Tables.Hosts.play {c : Course} (h : t₀.Hosts token id c.tables) (calls : List Turn)
    (addressed : ∀ x ∈ calls, x.operation.token? = some token) : t₀.Hosts token id (c.play calls).tables := by
  induction calls generalizing c with
  | nil => exact h
  | cons x calls ih =>
    obtain ⟨first, rest⟩ := List.forall_mem_cons.1 addressed
    exact ih (c := c.take x) (h.perform first x.clock) rest

/-- A cancellation that gives a value has removed the session. -/
theorem Tables.Hosts.find?_of_cancelled (h : t₀.Hosts token id w.tables) {clock : Nat → Instant}
    (cancelled : (w.perform (.cancel token) clock).1 = .ok ()) : (w.perform (.cancel token) clock).2.tables.find? id = none := by
  have settles := Ticking.meets_run (w := ⟨w, clock⟩) (yields_cancel token rfl) (fun v q _ => v.tables_ready q) (fun _ _ kept => kept) trivial
  change Settles w.tables _ (w.perform (.cancel token) clock).1 (w.perform (.cancel token) clock).2 at settles
  rw [cancelled] at settles
  obtain ⟨s, r, found, removed⟩ := settles
  rw [h.findByToken?_eq] at found
  rw [removed, Tables.find?_removed, if_pos (h.consistent.session_id found).symm]

end Calls

/-! ## Tokens that no session has -/

theorem Call.run_bind_of_error {α β σ : Type} {handle : Handler σ} {c : Call α} {s u : σ} {e : Error}
    (first : c.run handle s = (.error e, u)) (f : α → Call β) : (c >>= f).run handle s = (.error e, u) := by
  rw [run_bind, first]

/-- Whoever asks for a session with an unused token is told that there is none, and nothing changes. -/
theorem World.perform_of_unused {w : World} {o : Operation} (consistent : w.tables.Consistent) (unused : ¬w.tables.Uses token)
    (addressed : o.token? = some token) (clock : Nat → Instant) : w.perform o clock = (.error (.notFound .session), w) := by
  have unknown : w.tables.findByToken? token = none := by
    simp only [Tables.findByToken?, consistent.filed.get?_tokens_eq_none.2 unused, Option.bind_none]
  have found : (find token).run Ticking.handle ⟨w, clock⟩ = (.error (.notFound .session), ⟨w, clock⟩) := by
    simp only [find, Call.run_bind, Call.ask, Call.run, Ticking.handle, Ticking.ready, World.handle, unknown, Call.orFail]
  have looked : (look token).run Ticking.handle ⟨w, clock⟩ = (.error (.notFound .session), ⟨w, clock⟩) :=
    Call.run_bind_of_error found _
  have missed : o.call.run Ticking.handle ⟨w, clock⟩ = (.error (.notFound .session), ⟨w, clock⟩) := by
    cases o <;> cases addressed
    case get | questions | cancel | detail => exact Call.run_bind_of_error looked _
    case submit | clear => exact Call.run_bind_of_error (Call.run_bind_of_error looked _) _
    case complete => exact Call.run_bind_of_error found _
  rw [World.perform, missed]

/-- A turn that does not give out the token leaves it unused. -/
theorem Entry.Effect.unused {e : Entry} {t u : Tables} (effect : e.Effect t u) (unopened : e.opens token = false)
    (unused : ¬t.Uses token) : ¬u.Uses token := by
  rintro ⟨id, s, stored, named⟩
  cases effect with
  | quiet _ _ quiet =>
    obtain ⟨r, earlier, same⟩ := quiet.stored stored
    exact unused ⟨id, r, earlier, same.trans named⟩
  | marked _ _ wrote =>
    cases wrote
    exact unused ⟨id, s, stored, named⟩
  | opened _ opens =>
    obtain ⟨-, rfl⟩ | ⟨-, stored⟩ := Tables.find?_opened_eq_some.1 stored
    · have other := (opens token).symm.trans unopened
      exact beq_eq_false_iff_ne.1 other named
    · exact unused ⟨id, s, stored, named⟩

namespace Course

/-- While the token is not given out, it stays unused. -/
theorem unused_play {c : Course} (unused : ¬c.tables.Uses token) (turns : List Turn)
    (unopened : ∀ e ∈ (c.play turns).log, e.opens token = false) : ¬(c.play turns).tables.Uses token := by
  induction turns using List.reverseRecOn with
  | nil => exact unused
  | append_singleton turns x ih =>
    rw [play, List.foldl_append] at unopened ⊢
    obtain ⟨e, log, effect⟩ := (c.play turns).effect_take x
    obtain ⟨last, before⟩ := List.forall_mem_cons.1 (log ▸ unopened)
    exact effect.unused last (ih before)

/-- **A cancellation undoes the opening**, whatever calls on the token were made in between, at whatever instants: the tables
are those from before, with higher counters. From then on every call on the token is told that there is no such session, and
changes nothing, until the token is given to a new session. -/
theorem undone_by_cancel (catalog : Catalog) (now : Instant) (quota : Option Quota) (turns : List Turn) {user : Uuid}
    {r : Request} {chance : Chance} (fits : (Operation.create user r chance).fits = true) (clock : Nat → Instant)
    (calls : List Turn) (clock' : Nat → Instant) (more : List Turn) {s : Session} :
    let c := (start catalog now quota).play turns
    let d := (c.take ⟨.create user r chance, clock, fits⟩).play calls
    let e := d.take ⟨.cancel s.token, clock', rfl⟩
    let f := (⟨e.world, []⟩ : Course).play more
    (c.world.perform (.create user r chance) clock).1 = .ok s → (∀ x ∈ calls, x.operation.token? = some s.token) →
      (d.world.perform (.cancel s.token) clock').1 = .ok () →
      e.tables = { c.tables with lastSession := c.tables.lastSession + 1, lastSlot := c.tables.lastSlot + s.total } ∧
        1 ≤ s.total ∧
        ((∀ entry ∈ f.log, entry.opens s.token = false) → ∀ (o : Operation) (clock : Nat → Instant), o.token? = some s.token →
          f.world.perform o clock = (.error (.notFound .session), f.world)) := by
  intro c d e f created addressed cancelled
  have valid := valid_play catalog now quota turns
  have valid' : (c.take ⟨.create user r chance, clock, fits⟩).tables.Valid := (World.follows_perform valid fits clock).valid
  have settles := c.world.settles_perform (.create user r chance) clock
  rw [created] at settles
  obtain ⟨terms, drawn, fresh, rfl, opened⟩ := settles
  change (c.take ⟨.create user r chance, clock, fits⟩).tables = c.tables.opened terms drawn at opened
  have consistent := opened ▸ valid'.consistent
  have stored : (c.tables.opened terms drawn).find? (c.tables.lastSession + 1) = some (c.tables.opening terms drawn) := by
    rw [Tables.find?_opened, if_pos rfl]
  have found : (c.tables.opened terms drawn).findByToken? terms.token = some (c.tables.opening terms drawn) :=
    consistent.findByToken?_iff.2 ⟨stored, rfl⟩
  have first : (c.tables.opened terms drawn).Hosts terms.token (c.tables.lastSession + 1) (c.tables.opened terms drawn) :=
    .refl consistent found
  have hosts : (c.tables.opened terms drawn).Hosts terms.token (c.tables.lastSession + 1) d.tables :=
    Tables.Hosts.play (c := c.take ⟨.create user r chance, clock, fits⟩) (opened.symm ▸ first) calls addressed
  have gone := hosts.find?_of_cancelled cancelled
  have undone : e.tables = _ := (hosts.perform (o := .cancel terms.token) rfl clock').eq_of_gone valid.consistent gone
  refine ⟨undone, consistent.total_pos stored, fun unopened o clock addressed => ?_⟩
  have valid'' : e.tables.Valid := (World.follows_perform (o := .cancel terms.token) (follows_play valid' calls).valid rfl clock').valid
  have unused : ¬e.tables.Uses terms.token := by
    rw [undone]
    exact valid.consistent.filed.get?_tokens_eq_none.1 fresh
  have later : f.tables.Valid := (follows_play (c := ⟨e.world, []⟩) valid'' more).valid
  exact World.perform_of_unused later.consistent (unused_play (c := ⟨e.world, []⟩) unused more unopened) addressed clock

namespace Sample

def still : Nat → Instant := fun _ => ⟨0, false⟩

end Sample

/-- A session is opened beside another one, answered and cancelled, and a third one is opened: nobody knows the token of the
cancelled one. -/
theorem undone_by_cancel_of_answered :
    let c := (start Sample.catalog ⟨0, false⟩ none).play [Sample.opensAnother "U"]
    let d := (c.take Sample.opens).play [Sample.answers]
    let e := d.take Sample.cancels
    let f := (⟨e.world, []⟩ : Course).play [Sample.opensAnother "V"]
    (c.world.perform (.create Sample.user Sample.request ⟨"T", []⟩) Sample.still).1 = .ok (Sample.session 2) ∧
      (∀ x ∈ [Sample.answers], x.operation.token? = some "T") ∧ (d.world.perform (.cancel "T") Sample.still).1 = .ok () ∧
      (∀ entry ∈ f.log, entry.opens "T" = false) ∧ d.tables.answers.size = 1 ∧
      e.tables = { c.tables with lastSession := 2, lastSlot := 2 } ∧
      f.world.perform (.get "T") Sample.still = (.error (.notFound .session), f.world) := by
  intro c d e f
  have created : (c.world.perform (.create Sample.user Sample.request ⟨"T", []⟩) Sample.still).1 = .ok (Sample.session 2) := by
    decide +kernel
  have addressed : ∀ x ∈ [Sample.answers], x.operation.token? = some "T" := by decide
  have cancelled : (d.world.perform (.cancel "T") Sample.still).1 = .ok () := by decide +kernel
  have unopened : ∀ entry ∈ f.log, entry.opens "T" = false := by decide +kernel
  have answered : d.tables.answers.size = 1 := by decide +kernel
  obtain ⟨undone, -, unknown⟩ := undone_by_cancel Sample.catalog ⟨0, false⟩ none [Sample.opensAnother "U"] rfl Sample.still
    [Sample.answers] Sample.still [Sample.opensAnother "V"] created addressed cancelled
  exact ⟨created, addressed, cancelled, unopened, answered, undone, unknown unopened (.get "T") Sample.still rfl⟩

end Course

end Proctor
