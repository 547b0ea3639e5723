/-!
# Scores

The score of a session is the share of its questions that were answered rightly, in percent.
The count is a signed 32-bit number.
-/

set_option autoImplicit false

namespace Proctor

structure Score where
  correct : Int
  percent : Float
deriving DecidableEq

/-- The share of `correct` questions among `total`, in percent. -/
def Score.share (correct total : Int) : Float :=
  if 0 < total then 100.0 * Float.ofInt correct / Float.ofInt total else 0.0

/-- The score of the graded answers; a question without an answer counts as wrong. -/
def Score.tally (grades : List Bool) (total : Int) : Score :=
  let correct := (grades.count true : Int).bmod 0x100000000
  ⟨correct, share correct total⟩

theorem Score.eta (s : Score) : s = ⟨s.correct, s.percent⟩ := rfl

/-- Only the number of right grades matters. -/
theorem Score.tally_congr {grades others : List Bool} (h : grades.count true = others.count true) (total : Int) :
    tally grades total = tally others total := by
  unfold tally
  rw [h]

/-- A count of fewer than 2 ^ 31 grades is not cut off. -/
theorem Score.correct_tally {grades : List Bool} (h : grades.length < 0x80000000) (total : Int) :
    (tally grades total).correct = grades.count true := by
  have few := List.count_le_length (a := true) (l := grades)
  have fits : -0x80000000 ≤ (grades.count true : Int) ∧ (grades.count true : Int) < 0x80000000 := by omega
  unfold tally
  dsimp only
  generalize (grades.count true : Int) = n at *
  rw [Int.bmod_eq_of_le] <;> omega

example : Score.tally [true, false, true] 4 = ⟨2, 50.0⟩ := by decide +kernel

end Proctor
