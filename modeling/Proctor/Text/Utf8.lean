/-!
# UTF-8

Bytes are read as symbols: a symbol is a character, or a byte that belongs to no character. A
character takes one to four bytes, the fewest that hold its code; its first byte says how
many follow, and these have `10` for their upper bits. After a byte that belongs to no
character reading goes on with the next byte, so that ASCII characters are always found.
-/

set_option autoImplicit false

namespace Proctor.Text

/-- A character, or nothing for a byte that belongs to none. -/
abbrev Symbol := Option Char

/-- The symbols of a text, all of them characters. -/
def symbols (s : String) : List Symbol := s.toList.map some

namespace Utf8

/-- The number with the upper bits `n` whose further bits are in the next `count` bytes. -/
def continued : Nat → Nat → List UInt8 → Option Nat
  | 0, n, _ => some n
  | _ + 1, _, [] => none
  | count + 1, n, b :: rest =>
    if 0x80 ≤ b.toNat ∧ b.toNat < 0xC0 then continued count (n * 64 + (b.toNat - 0x80)) rest else none

/-- The character with a code that takes as many bytes as the codes from `least` on do. -/
def char? (least code : Nat) : Option Char :=
  if h : least ≤ code ∧ code.isValidChar then some (Char.ofNatAux code h.2) else none

/-- The character that the bytes begin with, and how many bytes it takes after the first. -/
def first? : List UInt8 → Option (Char × Nat)
  | [] => none
  | b :: rest =>
    let form (count lead least : Nat) : Option (Char × Nat) :=
      ((continued count (b.toNat - lead) rest).bind (char? least)).map fun c => (c, count)
    if b.toNat < 0x80 then form 0 0 0
    else if 0xC0 ≤ b.toNat ∧ b.toNat < 0xE0 then form 1 0xC0 0x80
    else if 0xE0 ≤ b.toNat ∧ b.toNat < 0xF0 then form 2 0xE0 0x800
    else if 0xF0 ≤ b.toNat ∧ b.toNat < 0xF8 then form 3 0xF0 0x10000
    else none

/-- The symbols after the next `taken` bytes, which belong to a character before them. -/
def decodeAfter : Nat → List UInt8 → List Symbol
  | _, [] => []
  | taken + 1, _ :: rest => decodeAfter taken rest
  | 0, b :: rest =>
    match first? (b :: rest) with
    | some (c, more) => some c :: decodeAfter more rest
    | none => none :: decodeAfter 0 rest

/-- The symbols of some bytes. -/
def decode (bytes : List UInt8) : List Symbol := decodeAfter 0 bytes

/-- The text that symbols are if all of them are characters. -/
def text? (cs : List Symbol) : Option String := (cs.mapM id).map String.ofList

/-- A text is what its symbols are. -/
theorem text?_symbols (s : String) : text? (symbols s) = some s := by
  have all (cs : List Char) : (cs.map some).mapM (id : Symbol → Option Char) = some cs := by
    induction cs with
    | nil => rfl
    | cons c cs ih => simp [ih]
  simp [text?, symbols, all]

example : decode [0x61, 0xC3, 0xA9, 0xF0, 0x9F, 0x98, 0x80] = ['a', 'é', '😀'].map some := by decide
example : decode [0xC0, 0xAF, 0x22] = [none, none, '"'] := by decide
example : decode [0xED, 0xA0, 0x80] = [none, none, none] := by decide
example : decode [0xF4, 0x90, 0x80, 0x80] = List.replicate 4 none := by decide
example : decode [0xC3, 0x28, 0xE2, 0x82] = [none, '(', none, none] := by decide

end Utf8

end Proctor.Text
