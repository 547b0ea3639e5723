/-!
# Instants

An `Instant` counts nanoseconds since the start of 1970 in UTC; only this count is compared
and calculated with. A flag records that an instant was written as the sixtieth second of the
minute before, which is how it is then written again.

A flagged instant comes out of a timestamp and goes into one; no clock shows it. The order and
the arithmetic are those of instants that a clock shows. Of a flagged one they do not speak as a
calendar with leap seconds would: 23:59:60.5 has the count of half a second past midnight, so it
is not before 00:00:00.2 of the next day here, and a minute after it is 00:01:00.5, not 00:00:59.5.
-/

set_option autoImplicit false

namespace Proctor

structure Instant where
  nanos : Int
  /-- Written as second 60 of the minute before, which no clock shows. -/
  leap : Bool := false
deriving DecidableEq, Inhabited

namespace Instant

instance : LE Instant := ⟨fun a b => a.nanos ≤ b.nanos⟩

instance : LT Instant := ⟨fun a b => a.nanos < b.nanos⟩

instance (a b : Instant) : Decidable (a ≤ b) := inferInstanceAs (Decidable (a.nanos ≤ b.nanos))

instance (a b : Instant) : Decidable (a < b) := inferInstanceAs (Decidable (a.nanos < b.nanos))

theorem le_iff {a b : Instant} : a ≤ b ↔ a.nanos ≤ b.nanos := Iff.rfl

theorem lt_iff {a b : Instant} : a < b ↔ a.nanos < b.nanos := Iff.rfl

theorem le_refl (a : Instant) : a ≤ a := Int.le_refl _

theorem le_trans {a b c : Instant} (ab : a ≤ b) (bc : b ≤ c) : a ≤ c := Int.le_trans ab bc

theorem not_lt {a b : Instant} : ¬a < b ↔ b ≤ a := Int.not_lt

def nanosPerSecond : Int := 1000000000

def plusMillis (t : Instant) (ms : Int) : Instant := ⟨t.nanos + ms * 1000000, t.leap⟩

/-- The instant some minutes later, by the count alone. -/
def plusMinutes (t : Instant) (minutes : Int) : Instant := ⟨t.nanos + minutes * 60 * nanosPerSecond, t.leap⟩

/-- The whole seconds from `now` until `t`, or zero once `t` has passed. -/
def secondsUntil (t now : Instant) : Int := max 0 ((t.nanos - now.nanos).tdiv nanosPerSecond)

end Instant

end Proctor
