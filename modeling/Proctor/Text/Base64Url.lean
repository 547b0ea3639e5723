/-!
# Unpadded base64 with the URL-safe alphabet

Three bytes are four characters; a last group of one or two bytes takes two or three
characters and no padding. `decode` accepts exactly the texts that `encode` writes: the
unused low bits of a short last group have to be zero.
-/

set_option autoImplicit false

namespace Proctor.Text.Base64Url

/-- The sixty-four characters, by value. -/
def alphabet : List Char :=
  "ABCDEFGHIJKLMNOPQRSTUVWXYZabcdefghijklmnopqrstuvwxyz0123456789-_".toList

def symbol (v : Nat) : Char := alphabet.getD v 'A'

def value? (c : Char) : Option Nat := alphabet.findIdx? (· == c)

def encode : List UInt8 → List Char
  | [] => []
  | [a] => [symbol (a.toNat / 4), symbol (a.toNat % 4 * 16)]
  | [a, b] =>
    [symbol (a.toNat / 4), symbol (a.toNat % 4 * 16 + b.toNat / 16), symbol (b.toNat % 16 * 4)]
  | a :: b :: c :: rest =>
    symbol (a.toNat / 4) :: symbol (a.toNat % 4 * 16 + b.toNat / 16) ::
      symbol (b.toNat % 16 * 4 + c.toNat / 64) :: symbol (c.toNat % 64) :: encode rest

def decode : List Char → Option (List UInt8)
  | [] => some []
  | [_] => none
  | [p, q] => do
    let x ← value? p
    let y ← value? q
    if y % 16 = 0 then some [(x * 4 + y / 16).toUInt8] else none
  | [p, q, r] => do
    let x ← value? p
    let y ← value? q
    let z ← value? r
    if z % 4 = 0 then some [(x * 4 + y / 16).toUInt8, (y % 16 * 16 + z / 4).toUInt8] else none
  | p :: q :: r :: s :: rest => do
    let x ← value? p
    let y ← value? q
    let z ← value? r
    let w ← value? s
    let more ← decode rest
    some ((x * 4 + y / 16).toUInt8 :: (y % 16 * 16 + z / 4).toUInt8 :: (z % 4 * 64 + w).toUInt8 :: more)

example : decode "AQID_w".toList = some [1, 2, 3, 255] := by decide
example : decode "AQIB".toList = some [1, 2, 1] := by decide
example : decode "AR".toList = none := by decide

end Proctor.Text.Base64Url
