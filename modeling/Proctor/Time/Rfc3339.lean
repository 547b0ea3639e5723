import Proctor.Text.Blank
import Proctor.Text.Integer
import Proctor.Time.Calendar
import Proctor.Time.Instant

/-!
# RFC 3339 timestamps

An instant is written in UTC with as few fraction digits as are exact, in groups of three.
Reading is more lenient: the parts may have blanks before them and fewer digits, a blank may
stand for the `T`, any offset below a day is taken off, and a second may be the sixtieth. Both
the date as it is written and the date in UTC have to be in reach.
-/

set_option autoImplicit false

namespace Proctor.Rfc3339

open Calendar Text.Integer

/-- Four digits for the years 0 to 9999, a sign and at least four digits for others. -/
def writeYear (year : Int) : List Char :=
  if 0 ≤ year ∧ year ≤ 9999 then padded 4 year.natAbs
  else (if year < 0 then '-' else '+') :: padded 4 year.natAbs

/-- The fraction of a second, in 0, 3, 6 or 9 digits. -/
def writeFraction (nanos : Nat) : List Char :=
  if nanos = 0 then []
  else if nanos % 1000000 = 0 then '.' :: padded 3 (nanos / 1000000)
  else if nanos % 1000 = 0 then '.' :: padded 6 (nanos / 1000)
  else '.' :: padded 9 nanos

/-- The timestamp of an instant in UTC, with the given name of the offset. -/
def write (t : Instant) (offset : String) : String :=
  let nanos := if t.leap then t.nanos - Instant.nanosPerSecond else t.nanos
  let seconds := nanos / Instant.nanosPerSecond
  let date := Date.ofDays (seconds / 86400)
  let inDay := (seconds % 86400).toNat
  let second := inDay % 60 + (if t.leap then 1 else 0)
  String.ofList (writeYear date.year ++ '-' :: padded 2 date.month ++ '-' :: padded 2 date.day ++
    'T' :: padded 2 (inDay / 3600) ++ ':' :: padded 2 (inDay / 60 % 60) ++ ':' :: padded 2 second ++
    writeFraction (nanos % Instant.nanosPerSecond).toNat ++ offset.toList)

/-- The timestamp with `Z` for the offset. -/
def zulu (t : Instant) : String := write t "Z"

/-- The timestamp with a numeric offset. -/
def numeric (t : Instant) : String := write t "+00:00"

/-- Reads at least one digit and at most `most`; the value and the digits read. -/
def digitsUpTo : Nat → Nat → Nat → List Char → Nat × Nat × List Char
  | 0, n, count, cs => (n, count, cs)
  | _ + 1, n, count, [] => (n, count, [])
  | most + 1, n, count, c :: cs =>
    match Text.digit? c with
    | some d => digitsUpTo most (n * 10 + d) (count + 1) cs
    | none => (n, count, c :: cs)

/-- A number of at most `most` digits, after blanks. -/
def number (most : Nat) (cs : List Char) : Option (Nat × List Char) :=
  match digitsUpTo most 0 0 (Text.trimStart cs) with
  | (_, 0, _) => none
  | (n, _, rest) => some (n, rest)

/-- The character `c`, after blanks. -/
def mark (c : Char) (cs : List Char) : Option (List Char) :=
  match Text.trimStart cs with
  | d :: rest => if c = d then some rest else none
  | [] => none

/-- A year: up to four digits, or any number after a sign. -/
def year (cs : List Char) : Option (Int × List Char) :=
  match Text.trimStart cs with
  | '-' :: rest => if (rest.head?.bind Text.digit?).isNone then none else
    (number rest.length rest).map fun (n, rest) => (-(n : Int), rest)
  | '+' :: rest => if (rest.head?.bind Text.digit?).isNone then none else
    (number rest.length rest).map fun (n, rest) => ((n : Int), rest)
  | cs => (number 4 cs).map fun (n, rest) => ((n : Int), rest)

/-- The nanoseconds of a fraction; digits after the ninth do not count. -/
def fraction : List Char → Option (Nat × List Char)
  | '.' :: cs =>
    match digitsUpTo 9 0 0 cs with
    | (_, 0, _) => none
    | (n, count, rest) => some (n * Nat.pow 10 (9 - count), rest.dropWhile Char.isDigit)
  | cs => some (0, cs)

def twoDigits : List Char → Option (Nat × List Char)
  | a :: b :: rest => do
    let x ← Text.digit? a
    let y ← Text.digit? b
    some (x * 10 + y, rest)
  | _ => none

/-- An offset from UTC in minutes: `Z`, `UTC`, or a sign, hours and minutes below a day. -/
def offset (cs : List Char) : Option (Int × List Char) :=
  match Text.trimStart cs with
  | 'Z' :: rest => some (0, rest)
  | 'z' :: rest => some (0, rest)
  | c :: rest =>
    if (c :: rest.take 2).map Char.toLower = ['u', 't', 'c'] then some (0, rest.drop 2)
    else if c = '+' ∨ c = '-' ∨ c = '\u2212' then do
      let (hours, rest) ← twoDigits rest
      let (minutes, rest) ← twoDigits (rest.dropWhile fun c => c == ':' || Text.isBlank c)
      if 60 ≤ minutes ∨ 24 ≤ hours then none
      else
        let size : Int := hours * 60 + minutes
        some (if c = '+' then size else -size, rest)
    else none
  | [] => none

/-- The first day that a timestamp can name, here and in UTC. -/
def firstDay : Date := ⟨-262143, 1, 1⟩

/-- The last day that a timestamp can name, here and in UTC. -/
def lastDay : Date := ⟨262142, 12, 31⟩

/-- The day, counted from the start of 1970, can be named. -/
def inReach (day : Int) : Bool := firstDay.toDays ≤ day && day ≤ lastDay.toDays

/-- The instant of a timestamp. -/
def read (s : String) : Option Instant := do
  let (year, cs) ← year s.toList
  let (month, cs) ← number 2 (← mark '-' cs)
  let (day, cs) ← number 2 (← mark '-' cs)
  let cs ← match cs with
    | c :: rest => if c = 'T' ∨ c = 't' ∨ c = ' ' then some rest else none
    | [] => none
  let (hour, cs) ← number 2 cs
  let (minute, cs) ← number 2 (← mark ':' cs)
  let (second, cs) ← number 2 (← mark ':' cs)
  let (nanos, cs) ← fraction cs
  let (offset, cs) ← offset cs
  let date : Date := ⟨year, month, day⟩
  let minutes : Int := date.toDays * 1440 + hour * 60 + minute - offset
  if date.valid ∧ inReach date.toDays ∧ inReach (minutes / 1440) ∧ hour < 24 ∧ minute < 60 ∧ second ≤ 60 ∧
      (Text.trimStart cs).isEmpty then
    some ⟨(minutes * 60 + second) * Instant.nanosPerSecond + nanos, second == 60⟩
  else none

example : zulu ⟨1767225600120000000, false⟩ = "2026-01-01T00:00:00.120Z" := by decide +kernel
example : read "2025-12-31 19:30:00.12-05:30" = some ⟨1767229200120000000, false⟩ := by decide +kernel
example : (read "+262142-12-31T23:59:60Z").isSome ∧ (read "+262142-12-31T23:59:00-00:01").isNone := by decide +kernel
example : (read "2016-12-31T23:59:60Z").map zulu = some "2016-12-31T23:59:60Z" := by decide +kernel

end Proctor.Rfc3339
