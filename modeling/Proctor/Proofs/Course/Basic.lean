import Proctor.Proofs.Exam.Account

/-!
# Courses of operations

A course takes turns: in each, one operation is carried out from its first access to its last,
while the clock shows whatever the turn says at each reading, also going backwards. The log
holds what came of each turn, the latest first. Whatever the turns are, the tables stay valid,
and their sessions go on as `Evolves` says (`follows_play`).
-/

set_option autoImplicit false

namespace Proctor

/-- A world whose clock shows `clock 0` when it is read next, then `clock 1`, and so on. -/
structure Ticking where
  world : World
  clock : Nat → Instant

namespace Ticking

/-- The clock is read. -/
def tick (w : Ticking) : Ticking := ⟨{ w.world with now := w.clock 0 }, fun i => w.clock (i + 1)⟩

/-- Reading the clock moves it; nothing else does. -/
def ready (w : Ticking) : Access → Ticking
  | .now => w.tick
  | _ => w

/-- Carries out one access. -/
def handle : Call.Handler Ticking := fun q w =>
  let (answer, world) := (w.ready q).world.handle q
  (answer, { w.ready q with world := world })

end Ticking

/-- Carries out an operation from its first access to its last, while the clock shows these instants. -/
def World.perform (w : World) (o : Exam.Operation) (clock : Nat → Instant) : Except Error o.Result × World :=
  let (outcome, after) := o.call.run Ticking.handle ⟨w, clock⟩
  (outcome, after.world)

/-- An operation with what the clock shows meanwhile. -/
structure Turn where
  operation : Exam.Operation
  clock : Nat → Instant
  fits : operation.fits = true

/-- An operation with what came of it. -/
structure Entry where
  operation : Exam.Operation
  outcome : Except Error operation.Result

structure Course where
  world : World
  /-- What came of each turn, the latest first. -/
  log : List Entry

namespace Course

/-- Nothing was done yet, and there are no sessions. -/
def start (catalog : Catalog) (now : Instant) (quota : Option Quota) : Course := ⟨.start catalog now quota, []⟩

def tables (c : Course) : Tables := c.world.tables

def take (c : Course) (x : Turn) : Course :=
  let (outcome, world) := c.world.perform x.operation x.clock
  ⟨world, ⟨x.operation, outcome⟩ :: c.log⟩

/-- Takes turns one after the other. -/
def play (c : Course) (turns : List Turn) : Course := turns.foldl take c

end Course

namespace Ticking

variable {α : Type} {w : Ticking}

theorem tables_ready (w : Ticking) (q : Access) : (w.ready q).world.tables = w.world.tables := by
  cases q <;> rfl

theorem follows_ready (valid : w.world.tables.Valid) (q : Access) : w.world.Follows (w.ready q).world := by
  refine ⟨?_, by cases q <;> rfl⟩
  rw [tables_ready]
  exact .refl valid

/-- A call that is carried out alone meets what it meets among others, if these may move the clock. -/
theorem meets_run {rely guar : World → World → Prop} {inv : World → Prop} {post : Except Error α → World → Prop} {c : Call α}
    (h : c.Meets World.handle rely guar post w.world) (relied : ∀ (v : Ticking) q, inv v.world → rely v.world (v.ready q).world)
    (kept : ∀ u v, guar u v → inv v) (start : inv w.world) : post (c.run handle w).1 (c.run handle w).2.world := by
  induction c generalizing w with
  | done a => exact h
  | failed e => exact h
  | step q next ih =>
    obtain ⟨guaranteed, rest⟩ := h (w.ready q).world (relied w q start)
    have holds := kept _ _ guaranteed
    simp only [Call.run, handle]
    cases eq : (w.ready q).world.handle q with
    | mk r v =>
      rw [eq] at holds rest
      cases r with
      | ok answer => exact ih answer (w := ⟨v, (w.ready q).clock⟩) rest holds
      | error e => exact rest

end Ticking

namespace World

variable {w : World} {o : Exam.Operation}

/-- An operation leaves tables that can follow. -/
theorem follows_perform (valid : w.tables.Valid) (fits : o.fits) (clock : Nat → Instant) :
    w.tables.Follows (w.perform o clock).2.tables := by
  have follows := (Exam.Operation.follows_call fits w).since (.refl valid) fun _ _ => Follows.trans valid
  have met := Ticking.meets_run (w := ⟨w, clock⟩) follows (fun v q valid => Ticking.follows_ready valid q)
    (fun _ _ next => next.follows.valid) valid
  exact met.1.follows

/-- An operation does what its result says. -/
theorem settles_perform (w : World) (o : Exam.Operation) (clock : Nat → Instant) :
    Exam.Settles w.tables (fun a v => o.Done w.tables a v.tables) (w.perform o clock).1 (w.perform o clock).2 :=
  Ticking.meets_run (w := ⟨w, clock⟩) (o.yields_call w) (fun v q _ => v.tables_ready q) (fun _ _ => id) trivial

end World

namespace Course

/-- **Whatever the turns are**, the tables stay valid and evolve. -/
theorem follows_play {c : Course} (valid : c.tables.Valid) (turns : List Turn) : c.tables.Follows (c.play turns).tables := by
  induction turns generalizing c with
  | nil => exact .refl valid
  | cons x turns ih =>
    have first := World.follows_perform valid x.fits x.clock
    have rest := ih (c := c.take x) first.valid
    exact first.trans valid rest

theorem valid_play (catalog : Catalog) (now : Instant) (quota : Option Quota) (turns : List Turn) :
    ((start catalog now quota).play turns).tables.Valid :=
  (follows_play (c := start catalog now quota) Tables.valid_empty turns).valid

end Course

end Proctor
