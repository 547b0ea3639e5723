import Proctor.Text.Integer

/-!
# Complaints about JSON

A complaint is a text and the place in the JSON that it is about. It is written as the text
with the place behind it, and `Complaint.read` finds the place again. Lines count from one:
line 0 stands for a place that is not known, and is not written.
-/

set_option autoImplicit false

namespace Proctor.Json

structure Complaint where
  text : String
  line : Nat
  column : Nat
deriving DecidableEq

namespace Complaint

def lineMark : List Char := " at line ".toList

def columnMark : List Char := " column ".toList

def message (c : Complaint) : String :=
  if c.line = 0 then c.text
  else c.text ++ String.ofList lineMark ++ Text.Integer.text c.line ++ String.ofList columnMark ++
    Text.Integer.text c.column

/-- The characters after `mark`, if the text begins with it. -/
def behind? (mark cs : List Char) : Option (List Char) :=
  if mark.isPrefixOf cs then some (cs.drop mark.length) else none

/-- What stands before and after the last occurrence of `mark`. -/
def aroundLast? (mark : List Char) : List Char → Option (List Char × List Char)
  | [] => none
  | c :: cs =>
    match aroundLast? mark cs with
    | some (before, rest) => some (c :: before, rest)
    | none => (behind? mark (c :: cs)).map fun rest => ([], rest)

/-- A number of at most 64 bits. -/
def count? (digits : List Char) : Option Nat := (Text.Integer.read? .unsigned64 (String.ofList digits)).map Int.toNat

/-- The line and the column, if the text is a line, the mark of a column, and a column. -/
def place? (cs : List Char) : Option (Nat × Nat) := do
  let column ← behind? columnMark (cs.dropWhile Char.isDigit)
  if column.all Char.isDigit then some (← count? (cs.takeWhile Char.isDigit), ← count? column) else none

/-- The complaint that a text is. -/
def read (s : String) : Complaint :=
  let found := (aroundLast? lineMark s.toList).bind fun (before, rest) => (place? rest).map (before, ·)
  match found with
  | some (before, line, column) => ⟨String.ofList before, line, column⟩
  | none => ⟨s, 0, 0⟩

example : read "x at line 03 column 7" = ⟨"x", 3, 7⟩ := by decide +kernel
example : read "x at line 3 column 7." = ⟨"x at line 3 column 7.", 0, 0⟩ := by decide +kernel
example : (read "x at line 1 column 2 at line 0 column 0").message = "x at line 1 column 2" := by decide +kernel

end Complaint

end Proctor.Json
