import Proctor.Text.Integer

/-!
# The shortest decimal of a double

Every finite double stands for the interval of reals that round to it. `Shortest.decimal`
finds the fewest digits of a decimal in that interval, and of two such decimals the nearer
one; the digits are found by exact integer arithmetic on the two neighbours of the value on
each decimal grid.
-/

set_option autoImplicit false

namespace Proctor.Decimal

/-- A positive double as `mantissa * 2 ^ exponent`, and how far its interval reaches below it. -/
structure Binary where
  mantissa : Nat
  exponent : Int
  /-- The next smaller double is half as far away as the next larger one. -/
  atBinade : Bool

namespace Binary

/-- Splits the bits of a double other than infinities and NaNs, its sign set aside. -/
def ofBits (bits : UInt64) : Binary :=
  let fraction : Nat := bits.toNat % 0x10000000000000
  let biased : Nat := bits.toNat / 0x10000000000000 % 0x800
  if biased = 0 then ⟨fraction, -1074, false⟩
  else ⟨0x10000000000000 + fraction, (biased : Int) - 1075, fraction == 0 && 1 < biased⟩

end Binary

/-- The decimal `digits * 10 ^ exponent`. -/
structure Scaled where
  digits : Nat
  exponent : Int
deriving DecidableEq

namespace Shortest

/-- The value and the ends of its interval, as numerators over one denominator. -/
structure Interval where
  low : Nat
  value : Nat
  high : Nat
  denominator : Nat
  closed : Bool

def Interval.ofBinary (b : Binary) : Interval :=
  let below := if b.atBinade then 1 else 2
  let up := (b.exponent - 2).toNat
  let down := (2 - b.exponent).toNat
  ⟨(4 * b.mantissa - below) <<< up, (4 * b.mantissa) <<< up, (4 * b.mantissa + 2) <<< up,
   1 <<< down, b.mantissa % 2 == 0⟩

/-- The grid point `c * 10 ^ p` lies in the interval. -/
def Interval.holds (i : Interval) (c : Nat) (p : Int) : Bool :=
  let point := c * i.denominator * Nat.pow 10 p.toNat
  let low := i.low * Nat.pow 10 (-p).toNat
  let high := i.high * Nat.pow 10 (-p).toNat
  if i.closed then low ≤ point && point ≤ high else low < point && point < high

/-- The grid point at or below the value. -/
def Interval.floor (i : Interval) (p : Int) : Nat :=
  i.value * Nat.pow 10 (-p).toNat / (i.denominator * Nat.pow 10 p.toNat)

/-- Twice the remainder of the value above its floor, compared with one grid step. -/
def Interval.halfway (i : Interval) (p : Int) : Ordering :=
  let step := i.denominator * Nat.pow 10 p.toNat
  compare (2 * (i.value * Nat.pow 10 (-p).toNat % step)) step

/-- The grid point in the interval that is nearest to the value; a tie goes to the even one. -/
def Interval.nearest? (i : Interval) (p : Int) : Option Nat :=
  let c := i.floor p
  match i.holds c p, i.holds (c + 1) p with
  | true, true =>
    match i.halfway p with
    | .lt => some c
    | .gt => some (c + 1)
    | .eq => some (if c % 2 = 0 then c else c + 1)
  | true, false => some c
  | false, true => some (c + 1)
  | false, false => none

/-- The least `k` from `start` on, within `fuel` steps, for which `numerator * 10 ^ k` reaches `denominator`. -/
def reach (numerator denominator : Nat) : Nat → Nat → Nat
  | 0, k => k
  | fuel + 1, k =>
    if denominator ≤ numerator * Nat.pow 10 k then k else reach numerator denominator fuel (k + 1)

/-- The number `e` with `10 ^ (e - 1) ≤ value < 10 ^ e`. -/
def Interval.magnitude (i : Interval) : Int :=
  if i.denominator ≤ i.value then (Text.Integer.digits (i.value / i.denominator)).length
  else 1 - reach i.value i.denominator 400 1

/-- The first grid, from `n` digits on, that has a point in the interval. -/
def search (i : Interval) (magnitude : Int) : Nat → Nat → Scaled
  | 0, n => ⟨i.floor (magnitude - n), magnitude - n⟩
  | fuel + 1, n =>
    match i.nearest? (magnitude - n) with
    | some c => ⟨c, magnitude - n⟩
    | none => search i magnitude fuel (n + 1)

/-- Drops the zeros at the end of the digits, at most `fuel` of them. -/
def strip : Nat → Scaled → Scaled
  | 0, s => s
  | fuel + 1, s =>
    if s.digits % 10 = 0 ∧ s.digits ≠ 0 then strip fuel ⟨s.digits / 10, s.exponent + 1⟩ else s

/-- The shortest decimal that rounds to the double with these bits; its sign is set aside. -/
def decimal (bits : UInt64) : Scaled :=
  let i := Interval.ofBinary (.ofBits bits)
  strip 17 (search i i.magnitude 17 1)

example : decimal (0.1 : Float).toBits = ⟨1, -1⟩ := by decide +kernel
example : decimal 1 = ⟨5, -324⟩ := by decide +kernel
example : decimal 0x7fefffffffffffff = ⟨17976931348623157, 292⟩ := by decide +kernel

end Shortest

end Proctor.Decimal
