import Proctor.Error
import Proctor.Session.Basic
import Proctor.Sorting

/-!
# Drawing questions

Of a pool every question counts once, in the kind of its first entry. The pool is sorted by
question id, and of entries of one question, which stand in a row then, the first is kept. The
draw is the tail of a shuffle: the entry at a random index is taken out, the last entry moves
into its place, and so on; the entries taken are numbered from the last one to the first.

A random index below `m` is the high half of the product of a random word with `m`. Words
whose product has a low half beyond `zone m` are passed over, which makes the index uniform.
When the given words have run out, zeros follow.
-/

set_option autoImplicit false

namespace Proctor.Draw

/-- The pool by question id; entries of one question stay in the order that they had. -/
def sorted (pool : List PoolEntry) : List PoolEntry := sortBy (fun a b => decide (a.question ≤ b.question)) pool

/-- The pool by question id, each question once. -/
def distinct (pool : List PoolEntry) : List PoolEntry := (sorted pool).eraseRepsBy fun a b => a.question == b.question

/-- The greatest low half that is accepted for an index below `m`: `m` is shifted up until it
fills a word. -/
def zone (m : Nat) : Nat := m <<< (31 - Nat.log2 m) - 1

/-- A random index below `m`, the words after it, and the number of words it took. -/
def index (m : Nat) : List UInt32 → Nat × List UInt32 × Nat
  | [] => (0, [], 1)
  | v :: words =>
    let product := v.toNat * m
    if product % 0x100000000 ≤ zone m then (product / 0x100000000, words, 1)
    else
      let (j, words, used) := index m words
      (j, words, used + 1)

/-- Random indices below `m`, `m - 1` and so on, and the number of words they took. -/
def indices : Nat → Nat → List UInt32 → List Nat × Nat
  | 0, _, _ => ([], 0)
  | count + 1, m, words =>
    let (j, words, used) := index m words
    let (js, more) := indices count (m - 1) words
    (j :: js, used + more)

variable {α : Type}

/-- Drops the entry at `j`; the last entry moves into its place. -/
def refill (l : List α) (j : Nat) : List α :=
  match l.getLast? with
  | some z => (l.set j z).dropLast
  | none => []

/-- Takes out the entries at the given indices one after the other, the last one first in the result. -/
def select : List Nat → List α → List α → List α
  | [], _, taken => taken
  | j :: js, l, taken =>
    match l[j]? with
    | some a => select js (refill l j) (a :: taken)
    | none => taken

/-- Numbers the entries from 1. -/
def number (entries : List PoolEntry) : List Drawn :=
  entries.zipIdx.map fun (e, i) => ⟨(i : Int) + 1, e.question, e.kind⟩

/-- Draws `count` questions, and tells how many words that took. -/
def draw (pool : List PoolEntry) (count : Nat) (words : List UInt32) : Except Error (List Drawn × Nat) :=
  let entries := distinct pool
  if count = 0 then .error (.input .emptyDraw)
  else if entries.length < count then .error (.insufficientPool count entries.length)
  else
    let (js, used) := indices count entries.length words
    .ok (number (select js entries []), used)

example : zone 1 = 0x7FFFFFFF ∧ zone 3 = 0xBFFFFFFF := by decide

end Proctor.Draw
