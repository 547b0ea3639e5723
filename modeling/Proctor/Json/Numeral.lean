import Proctor.Json.Value

/-!
# Numbers in JSON text

A numeral without fraction and exponent that fits 64 bits (signed when negative) is a whole
number, except `-0`. Any other numeral is a double: as many of its leading digits as fit 64
bits, multiplied or divided by a power of ten. A numeral beyond the largest double has no
value.
-/

set_option autoImplicit false

namespace Proctor.Json

/-- A numeral, taken apart; the digits are their values. -/
structure Numeral where
  negative : Bool
  whole : List Nat
  fraction : Option (List Nat)
  /-- Whether the exponent is negative, and its digits. -/
  exponent : Option (Bool × List Nat)
deriving DecidableEq

namespace Numeral

def word : Nat := 0x10000000000000000

/-- Appends digits while the number fits 64 bits; the number and the digits left over. -/
def significand (n : Nat) : List Nat → Nat × List Nat
  | [] => (n, [])
  | d :: rest => if n * 10 + d < word then significand (n * 10 + d) rest else (n, d :: rest)

def powerOfTen (n : Nat) : Float := Float.ofScientific 1 false n

/-- `x * 10 ^ e`, rounded once per factor of at most `10 ^ 308`; nothing if it is too large. -/
def scale : Nat → Float → Int → Option Float
  | fuel, x, e =>
    if e.natAbs ≤ 308 then
      if 0 ≤ e then
        let y := x * powerOfTen e.natAbs
        if y.isInf then none else some y
      else some (x / powerOfTen e.natAbs)
    else if x == 0.0 then some x
    else if 0 ≤ e then none
    else match fuel with
      | 0 => some 0.0
      | fuel + 1 => scale fuel (x / powerOfTen 308) (e + 308)

/-- The value of the exponent's digits; nothing from `2 ^ 31` on, and then the digits are left
over that follow the one which made it too large. -/
def exponentSize (n : Nat) : List Nat → Option Nat × List Nat
  | [] => (some n, [])
  | d :: rest => if n * 10 + d < 0x80000000 then exponentSize (n * 10 + d) rest else (none, rest)

/-- The number `digits * 10 ^ e` with the numeral's own exponent applied. -/
def toDouble (m : Numeral) (digits : Nat) (e : Int) : Option Float :=
  let size : Option Float :=
    match m.exponent with
    | none => scale 3 digits.toUInt64.toFloat e
    | some (down, ds) =>
      match (exponentSize 0 ds).1 with
      | some k => scale 3 digits.toUInt64.toFloat (if down then e - k else e + k)
      | none => if digits ≠ 0 ∧ ¬down then none else some 0.0
  size.map fun x => if m.negative then -x else x

/-- The number a numeral stands for. -/
def number? (m : Numeral) : Option Number :=
  let (n, dropped) := significand 0 m.whole
  match m.fraction with
  | some ds =>
    let (n', unused) := significand n ds
    (m.toDouble n' (dropped.length - (ds.length - unused.length : Int))).map .double
  | none =>
    match m.exponent with
    | some _ => (m.toDouble n dropped.length).map .double
    | none =>
      if dropped.isEmpty ∧ ¬m.negative then some (.whole n)
      else if dropped.isEmpty ∧ n ≠ 0 ∧ n ≤ 0x8000000000000000 then some (.whole (-n))
      else (m.toDouble n dropped.length).map .double

/-- The numeral has no value, and this shows before its last digit. -/
def endsEarly (m : Numeral) : Bool :=
  m.number?.isNone && m.exponent.any fun e => !(exponentSize 0 e.2).2.isEmpty

end Numeral

end Proctor.Json
