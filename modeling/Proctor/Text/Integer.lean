import Proctor.Outcome

/-!
# Whole numbers as text

`Integer.read` accepts an optional sign and at least one ASCII digit, and nothing else;
the value has to lie in the given range. Reading goes from left to right, so the first of
a bad character and a number that has grown too large decides. `Integer.text` writes the
shortest such text.
-/

set_option autoImplicit false

namespace Proctor.Text

/-- The inclusive bounds of a fixed-width integer. -/
structure Width where
  least : Int
  greatest : Int

namespace Width

def signed32 : Width := ⟨-2147483648, 2147483647⟩

def signed64 : Width := ⟨-9223372036854775808, 9223372036854775807⟩

def unsigned32 : Width := ⟨0, 4294967295⟩

def unsigned64 : Width := ⟨0, 18446744073709551615⟩

def holds (w : Width) (n : Int) : Bool := w.least ≤ n && n ≤ w.greatest

end Width

/-- Why a text is no number of the wanted width. -/
inductive IntegerFault where
  | empty
  | invalidDigit
  | tooLarge
  | tooSmall
deriving DecidableEq

def IntegerFault.message : IntegerFault → String
  | .empty => "cannot parse integer from empty string"
  | .invalidDigit => "invalid digit found in string"
  | .tooLarge => "number too large to fit in target type"
  | .tooSmall => "number too small to fit in target type"

/-- The value of an ASCII digit. -/
def digit? (c : Char) : Option Nat := if c.isDigit then some (c.toNat - 48) else none

namespace Integer

/-- Reads digits after the number `n`; a value above `bound` is `beyond`. -/
def readDigits (bound : Nat) (beyond : IntegerFault) (n : Nat) : List Char → Except IntegerFault Nat
  | [] => .ok n
  | c :: rest =>
    match digit? c with
    | none => .error .invalidDigit
    | some d => if bound < n * 10 + d then .error beyond else readDigits bound beyond (n * 10 + d) rest

/-- Reads a whole number of width `w`. A minus sign is a bad digit where no number is negative. -/
def read (w : Width) : List Char → Except IntegerFault Int
  | [] => .error .empty
  | '+' :: cs => if cs.isEmpty then .error .invalidDigit else above cs
  | '-' :: cs =>
    if cs.isEmpty || w.least == 0 then .error .invalidDigit
    else (readDigits w.least.natAbs .tooSmall 0 cs).map fun n => -(n : Int)
  | cs => above cs
where
  above (cs : List Char) : Except IntegerFault Int :=
    (readDigits w.greatest.natAbs .tooLarge 0 cs).map fun n => (n : Int)

/-- The value where the reason of a refusal does not matter. -/
def read? (w : Width) (s : String) : Option Int := (read w s.toList).toOption

def digitChar (d : Nat) : Char := Char.ofNat (48 + d)

/-- Writes `n` in front of `acc`, with at most `fuel` digits. -/
def writeDigits : Nat → Nat → List Char → List Char
  | 0, _, acc => acc
  | fuel + 1, n, acc =>
    if n < 10 then digitChar n :: acc else writeDigits fuel (n / 10) (digitChar (n % 10) :: acc)

/-- The decimal digits of `n`, without leading zeros. -/
def digits (n : Nat) : List Char := writeDigits (n + 1) n []

/-- The digits of `n`, with zeros in front up to `width` characters. -/
def padded (width n : Nat) : List Char :=
  List.replicate (width - (digits n).length) '0' ++ digits n

def text (n : Int) : String :=
  String.ofList (if n < 0 then '-' :: digits n.natAbs else digits n.natAbs)

example : read .unsigned32 "+007".toList = .ok 7 := by decide
example : read .unsigned32 "4294967296x".toList = .error .tooLarge := by decide
example : read .unsigned32 "-0".toList = .error .invalidDigit := by decide
example : read .signed64 "-9223372036854775808".toList = .ok (-9223372036854775808) := by decide
example : text (-120) = "-120" := by decide

end Integer

end Proctor.Text
