import Proctor.Text.Integer
import Proctor.Text.Utf8

/-!
# Percent-encoded text

`%` and two hexadecimal digits stand for one byte. A `%` that no such pair follows stands
for itself; every other character stands for its own bytes.
-/

set_option autoImplicit false

namespace Proctor.Text.Percent

/-- The value of a hexadecimal digit of either case. -/
def hexDigit? (c : Char) : Option Nat :=
  if c.isDigit then some (c.toNat - 48)
  else if 'a' ≤ c ∧ c ≤ 'f' then some (c.toNat - 87)
  else if 'A' ≤ c ∧ c ≤ 'F' then some (c.toNat - 55)
  else none

/-- The bytes of one character. -/
def bytesOf (c : Char) : List UInt8 := c.toString.toUTF8.toList

def bytes : List Char → List UInt8
  | '%' :: a :: b :: rest =>
    match hexDigit? a, hexDigit? b with
    | some x, some y => (x * 16 + y).toUInt8 :: bytes rest
    | _, _ => bytesOf '%' ++ bytes (a :: b :: rest)
  | c :: rest => bytesOf c ++ bytes rest
  | [] => []

/-- The decoded text, if its bytes are UTF-8. -/
def decode? (cs : List Char) : Option String := Utf8.text? (Utf8.decode (bytes cs))

end Proctor.Text.Percent
