/-!
# White space

`isBlank` is Unicode's White_Space property; `trim` drops such characters at both ends.
-/

set_option autoImplicit false

namespace Proctor.Text

/-- The inclusive ranges of code points with the White_Space property. -/
def blankRanges : List (Nat × Nat) :=
  [(0x09, 0x0D), (0x20, 0x20), (0x85, 0x85), (0xA0, 0xA0), (0x1680, 0x1680), (0x2000, 0x200A),
   (0x2028, 0x2029), (0x202F, 0x202F), (0x205F, 0x205F), (0x3000, 0x3000)]

/-- The character has the White_Space property. -/
def isBlank (c : Char) : Bool := blankRanges.any fun r => r.1 ≤ c.toNat && c.toNat ≤ r.2

def trimStart (cs : List Char) : List Char := cs.dropWhile isBlank

def trimEnd (cs : List Char) : List Char := (cs.reverse.dropWhile isBlank).reverse

/-- Drops the blank characters at both ends. -/
def trim (cs : List Char) : List Char := trimEnd (trimStart cs)

/-- The texts agree up to the case of ASCII letters. -/
def sameIgnoringCase (s t : String) : Bool := s.toList.map Char.toLower == t.toList.map Char.toLower

example : (blankRanges.map fun r => r.2 - r.1 + 1).sum = 25 := by decide

end Proctor.Text
