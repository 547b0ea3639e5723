import Proctor.Catalog
import Proctor.Draw
import Proctor.Store.Tables

/-!
# Calls and their accesses

A `Call` is what a service does on behalf of a caller: a tree of single accesses to the
clock, the tables, the catalog and the quota, each of which happens at once. Between two
accesses of one call anything else may happen. An access that fails ends the call with its
error. `Call.run` carries a call out with a handler for the accesses; `run_bind` says that a
call made of two parts runs one after the other.
-/

set_option autoImplicit false

namespace Proctor

/-- A single access. -/
inductive Access where
  | now
  | create (terms : Terms) (drawn : List Drawn)
  | findByToken (token : String)
  | find (id : Int)
  | list (f : Filter)
  | markTimedOut (id : Int) (now : Instant)
  | complete (id : Int) (now : Instant)
  | deleteOngoing (id : Int)
  | sheet (session : Int)
  | slotAt (session sequence : Int)
  | answersOf (session : Int)
  | record (a : Answer)
  | clear (slot : Int) (now : Instant)
  | hasLevel (subject level : Int)
  | pool (s : Scope)
  | question (id : Int)
  | questions (ids : List Int)
  | allowCreate (user : Uuid)
deriving DecidableEq

/-- What an access gives. -/
abbrev Access.Answer : Access → Type
  | .now => Instant
  | .create _ _ => Session
  | .findByToken _ => Option Session
  | .find _ => Option Session
  | .list _ => List Session × Nat
  | .markTimedOut _ _ => Session
  | .complete _ _ => Option Session
  | .deleteOngoing _ => Bool
  | .sheet _ => List Slot
  | .slotAt _ _ => Option Slot
  | .answersOf _ => List Proctor.Answer
  | .record _ => Option Proctor.Answer
  | .clear _ _ => Removal
  | .hasLevel _ _ => Bool
  | .pool _ => List PoolEntry
  | .question _ => Question
  | .questions _ => List Question
  | .allowCreate _ => Bool

/-- A call that gives a value of type `α`. -/
inductive Call (α : Type) where
  | done (a : α)
  | failed (e : Error)
  /-- Makes the access `q` and goes on with what it gives. -/
  | step (q : Access) (next : q.Answer → Call α)

namespace Call

variable {α β σ : Type}

def bind : Call α → (α → Call β) → Call β
  | done a, f => f a
  | failed e, _ => failed e
  | step q next, f => step q fun answer => (next answer).bind f

instance : Monad Call where
  pure := done
  bind := bind

def ask (q : Access) : Call q.Answer := step q done

/-- The instant that the clock shows. -/
def now : Call Instant := ask .now

def ofExcept : Except Error α → Call α
  | .ok a => done a
  | .error e => failed e

/-- The value of `a?`, or else the error `e`. -/
def orFail (e : Error) (a? : Option α) : Call α :=
  match a? with
  | some a => done a
  | none => failed e

/-- What carries out single accesses on some state. -/
abbrev Handler (σ : Type) := (q : Access) → σ → Except Error q.Answer × σ

/-- Carries out the call to its end. -/
def run (handle : Handler σ) : Call α → σ → Except Error α × σ
  | done a, s => (.ok a, s)
  | failed e, s => (.error e, s)
  | step q next, s =>
    match handle q s with
    | (.ok answer, s) => (next answer).run handle s
    | (.error e, s) => (.error e, s)

theorem bind_def (c : Call α) (f : α → Call β) : c >>= f = c.bind f := rfl

theorem run_bind (handle : Handler σ) (c : Call α) (f : α → Call β) (s : σ) :
    (c >>= f).run handle s =
      match c.run handle s with
      | (.ok a, s) => (f a).run handle s
      | (.error e, s) => (.error e, s) := by
  rw [bind_def]
  induction c generalizing s with
  | done a => rfl
  | failed e => rfl
  | step q next ih =>
    simp only [bind, run]
    split
    · exact ih _ _
    · rfl

/-- If a call of two parts gives a value, so does the first part, and then the second one from there. -/
theorem exists_of_run_bind {handle : Handler σ} {c : Call α} {f : α → Call β} {s : σ} {b : β}
    (h : ((c >>= f).run handle s).1 = .ok b) : ∃ a u, c.run handle s = (.ok a, u) ∧ ((f a).run handle u).1 = .ok b := by
  rw [run_bind] at h
  cases eq : c.run handle s with
  | mk r u =>
    rw [eq] at h
    cases r with
    | ok a => exact ⟨a, u, rfl, h⟩
    | error e => cases h

end Call

end Proctor
