import Proctor.Text.Percent

/-!
# UUIDs

A `Uuid` is a 128-bit number, written as 32 hexadecimal digits in groups of 8, 4, 4, 4 and 12.
The groups may also be read without the dashes, in braces, or after `urn:uuid:`; letter case
never counts.
-/

set_option autoImplicit false

namespace Proctor

structure Uuid where
  number : Fin 0x100000000000000000000000000000000
deriving DecidableEq

namespace Uuid

instance : Ord Uuid := ⟨fun a b => compare a.number b.number⟩

instance : Std.LawfulEqOrd Uuid where
  compare_self {a} := (Std.ReflCmp.compare_self : compare a.number a.number = .eq)
  eq_of_compare {a b} h := by
    cases a
    cases b
    exact congrArg mk (Std.LawfulEqOrd.eq_of_compare h)

instance : Std.TransOrd Uuid where
  eq_swap {a b} := (Std.OrientedCmp.eq_swap : compare a.number b.number = (compare b.number a.number).swap)
  isLE_trans {a b c} := (Std.TransCmp.isLE_trans :
    (compare a.number b.number).isLE → (compare b.number c.number).isLE → (compare a.number c.number).isLE)

/-- The value of hexadecimal digits, if there are exactly 32 of them. -/
def ofDigits? (cs : List Char) : Option Uuid := do
  let ds ← cs.mapM Text.Percent.hexDigit?
  if ds.length = 32 then some ⟨Fin.ofNat _ (ds.foldl (fun n d => n * 16 + d) 0)⟩ else none

/-- Reads five groups of digits with dashes between them. -/
def ofGroups? (cs : List Char) : Option Uuid :=
  if cs.length = 36 ∧ [8, 13, 18, 23].all fun i => cs[i]? == some '-' then
    ofDigits? (cs.take 8 ++ (cs.drop 9).take 4 ++ (cs.drop 14).take 4 ++ (cs.drop 19).take 4 ++ cs.drop 24)
  else none

/-- The text between braces. -/
def inBraces? (cs : List Char) : Option (List Char) :=
  if cs.head? = some '\x7b' ∧ cs.getLast? = some '\x7d' then some (cs.drop 1).dropLast else none

def read? (s : String) : Option Uuid :=
  let cs := s.toList
  if cs.length = 32 then ofDigits? cs
  else if cs.length = 36 then ofGroups? cs
  else if cs.length = 38 then (inBraces? cs).bind ofGroups?
  else if (cs.take 9).map Char.toLower = "urn:uuid:".toList then ofGroups? (cs.drop 9)
  else none

/-- The last `count` hexadecimal digits of `n`, in front of `acc`. -/
def hexDigits : Nat → Nat → List Char → List Char
  | 0, _, acc => acc
  | count + 1, n, acc =>
    hexDigits count (n / 16) (Char.ofNat (if n % 16 < 10 then 48 + n % 16 else 87 + n % 16) :: acc)

def text (u : Uuid) : String :=
  let ds := hexDigits 32 u.number.val []
  String.ofList (ds.take 8 ++ '-' :: (ds.drop 8).take 4 ++ '-' :: (ds.drop 12).take 4 ++
    '-' :: (ds.drop 16).take 4 ++ '-' :: ds.drop 20)

example : (read? "\x7b550E8400-E29B-41D4-A716-446655440000\x7d").map text =
    some "550e8400-e29b-41d4-a716-446655440000" := by decide +kernel

end Uuid

end Proctor
