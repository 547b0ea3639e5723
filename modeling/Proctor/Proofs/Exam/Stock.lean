import Proctor.Proofs.Exam.Refusal
import Proctor.Proofs.Store.Stock

/-!
# Operations and the questions of slots

Whatever others do to the tables, and whatever the clock shows, an operation makes slots for questions of the
catalog only (`Operation.stocks_call`), as it draws them from the pool that the catalog gave it.
-/

set_option autoImplicit false

namespace Proctor

theorem Access.Single.newToken?_eq_none {q : Access} (single : q.Single) : q.newToken? = none := by
  cases q with
  | create => cases single
  | _ => rfl

namespace Exam

open Call

/-- Among others who make slots for questions of the catalog only, the call does so too. -/
abbrev Stocking {α : Type} (post : Except Error α → World → Prop) (c : Call α) (w : World) : Prop :=
  c.Meets World.handle World.Stocks World.Stocks post w

variable {w : World}

theorem stocking_ask {q : Access} (old : q.newToken? = none) :
    Stocking (fun r u => ∃ v, w.Stocks v ∧ v.handle q = (r, u)) (ask q) w :=
  meets_ask fun v before => ⟨World.stocks_handle old v, v, before, rfl⟩

theorem stocking_of_only {α : Type} {c : Call α} (only : c.Only fun q => q.newToken? = none) : Stocking (fun _ _ => True) c w :=
  only.meets (fun _ _ _ _ => trivial) (fun _ u old _ => ⟨World.stocks_handle old u, trivial⟩) trivial

theorem stocking_of_quiet {α : Type} {c : Call α} (only : c.Only Access.Quiet) : Stocking (fun _ _ => True) c w :=
  stocking_of_only (only.imp fun _ quiet => quiet.newToken?_eq_none)

theorem stocking_of_single {α : Type} {c : Call α} (only : c.Only Access.Single) : Stocking (fun _ _ => True) c w :=
  stocking_of_only (only.imp fun _ single => single.newToken?_eq_none)

/-- What is drawn from a pool of the catalog is offered by it, also later. -/
theorem stocking_create (user : Uuid) (r : Request) (chance : Chance) : Stocking (fun _ _ => True) (create user r chance) w := by
  have within_ : Stocking (fun _ _ => True) (within r.faults) w := by
    unfold within
    split <;> trivial
  refine meets_bind within_ (fun _ w _ => ?_) fun _ _ _ => trivial
  refine meets_bind (stocking_ask rfl) (fun known w _ => ?_) fun _ _ _ => trivial
  split
  · trivial
  refine meets_bind (stocking_ask rfl) ?_ fun _ _ _ => trivial
  rintro pool w ⟨v, -, eq⟩
  cases eq
  cases drew : Draw.draw (w.catalog.pool r.scope) r.count.toNat chance.words with
  | error e => trivial
  | ok drawn =>
    have offered : w.catalog.Keyed → ∀ d ∈ drawn.1, w.catalog.Offers d.question d.kind := fun keyed d listed =>
      keyed.offers_of_mem_pool (Draw.mem_of_draw_eq_ok drew listed)
    have kept : ∀ u v : World, (u.catalog.Keyed → ∀ d ∈ drawn.1, u.catalog.Offers d.question d.kind) → u.Stocks v →
        v.catalog.Keyed → ∀ d ∈ drawn.1, v.catalog.Offers d.question d.kind := by
      intro u v offered stocks
      rwa [stocks.catalog]
    show Stocking _ (Call.now >>= _) w
    refine meets_bind ((stocking_ask (q := .now) rfl).carry offered kept kept) ?_ fun _ _ _ => trivial
    rintro now u ⟨offered, -⟩
    exact meets_ask fun v before => ⟨World.stocks_create v (kept u v offered before), trivial⟩

namespace Operation

/-- **Operations make slots for questions of the catalog only**, whatever others do. -/
theorem stocks_call (o : Operation) (w : World) : Stocking (fun _ _ => True) o.call w := by
  cases o with
  | create user r chance => exact stocking_create user r chance
  | submit token sequence payload => exact stocking_of_single (only_submit token sequence payload)
  | clear token sequence => exact stocking_of_single (confined_clear token sequence).only
  | get token => exact stocking_of_quiet (plain_get token).quiet
  | questions token => exact stocking_of_quiet (plain_questions token).quiet
  | complete token => exact stocking_of_quiet (plain_complete token).quiet
  | cancel token => exact stocking_of_quiet (plain_cancel token).quiet
  | detail token => exact stocking_of_quiet (plain_detail token).quiet
  | list f => exact stocking_of_quiet (only_list f)

end Operation

end Exam

end Proctor
