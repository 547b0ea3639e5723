import Proctor.Proofs.Text.Integer
import Proctor.Proofs.Time.Calendar
import Proctor.Time.Rfc3339

/-!
# Timestamps are read as they are written

The timestamp of an instant is read as this instant, if its day is in reach (`read_zulu`). Each part of a timestamp is read up to its
end, and what stands behind it is left for the next one.
-/

set_option autoImplicit false

namespace Proctor

/-- The nanoseconds that are written; second 60 is counted as the one before it. -/
def Instant.written (t : Instant) : Int := if t.leap then t.nanos - nanosPerSecond else t.nanos

/-- The instant has a timestamp: its day is in reach, and if it was written as second 60, it is the start of a minute. -/
structure Instant.Nameable (t : Instant) : Prop where
  inReach : Rfc3339.inReach (t.written / nanosPerSecond / 86400) = true
  leap : t.leap = true → t.nanos / nanosPerSecond % 60 = 0

namespace Rfc3339

open Calendar Text.Integer

variable {rest : List Char}

/-- The text does not go on with a digit. -/
def Ended (cs : List Char) : Prop := cs.head?.bind Text.digit? = none

theorem length_decimals_le {k n : Nat} (small : n < 10 ^ (k + 1)) : (decimals n).length ≤ k + 1 := by
  induction k generalizing n with
  | zero =>
    rw [decimals, if_pos (by simpa using small)]
    exact Nat.le_refl 1
  | succ k ih =>
    unfold decimals
    split
    · exact Nat.le_add_left 1 (k + 1)
    · have before : n / 10 < 10 ^ (k + 1) := by
        rw [Nat.pow_succ] at small
        omega
      rw [List.length_append, List.length_singleton]
      exact Nat.succ_le_succ (ih before)

/-- Digits are read up to the last one that may be read. -/
theorem digitsUpTo_map {ds : List Nat} {most : Nat} (small : ∀ d ∈ ds, d < 10) (fits : ds.length ≤ most)
    (ends : ds.length = most ∨ Ended rest) (n count : Nat) :
    digitsUpTo most n count (ds.map digitChar ++ rest) = (ofDecimals n ds, count + ds.length, rest) := by
  induction ds generalizing most n count with
  | nil =>
    cases most with
    | zero => rfl
    | succ most =>
      obtain ends : Ended rest := ends.resolve_left (Nat.succ_ne_zero most).symm
      cases rest with
      | nil => rfl
      | cons c rest =>
        have none : Text.digit? c = none := ends
        simp only [List.map_nil, List.nil_append, digitsUpTo, none]
        rfl
  | cons d ds ih =>
    cases most with
    | zero => cases fits
    | succ most =>
      obtain ⟨first, later⟩ := List.forall_mem_cons.1 small
      have digit : Text.digit? (digitChar d) = some d := digit?_digitChar d first
      simp only [List.map_cons, List.cons_append, digitsUpTo, digit]
      rw [ih later (Nat.le_of_succ_le_succ fits) (ends.imp_left Nat.succ.inj)]
      simp [ofDecimals, Nat.add_comm, Nat.add_left_comm]

theorem digitsUpTo_padded {k n most : Nat} (small : n < 10 ^ (k + 1)) (fits : k + 1 ≤ most) (ends : k + 1 = most ∨ Ended rest) :
    digitsUpTo most 0 0 (padded (k + 1) n ++ rest) = (n, k + 1, rest) := by
  obtain ⟨ds, eq, length, digits, value⟩ := exists_padded_eq (k + 1) n
  have length : ds.length = k + 1 := by
    have := length_decimals_le small
    omega
  rw [eq, digitsUpTo_map digits (length ▸ fits) (length ▸ ends), value, length, Nat.zero_add]

/-- A padded number begins with a digit. -/
theorem exists_padded_eq_cons (k n : Nat) : ∃ d < 10, ∃ cs, padded (k + 1) n = digitChar d :: cs := by
  obtain ⟨ds, eq, length, digits, -⟩ := exists_padded_eq (k + 1) n
  cases ds with
  | nil =>
    simp only [List.length_nil] at length
    omega
  | cons d ds => exact ⟨d, digits d List.mem_cons_self, ds.map digitChar, eq⟩

theorem trimStart_padded (k n : Nat) (rest : List Char) : Text.trimStart (padded (k + 1) n ++ rest) = padded (k + 1) n ++ rest := by
  obtain ⟨d, small, cs, eq⟩ := exists_padded_eq_cons k n
  rw [eq, List.cons_append]
  exact List.dropWhile_cons_of_neg (by simp [isBlank_digitChar d small])

/-- A number that is padded to all digits that may be read is read. -/
theorem number_padded {k n : Nat} (small : n < 10 ^ (k + 1)) (rest : List Char) :
    number (k + 1) (padded (k + 1) n ++ rest) = some (n, rest) := by
  rw [number, trimStart_padded, digitsUpTo_padded small (Nat.le_refl _) (.inl rfl)]
  rfl

/-- A number that is followed by no digit is read if its digits may be read. -/
theorem number_padded_of_ended {k n most : Nat} (fits : (padded (k + 1) n).length ≤ most) (ends : Ended rest) :
    number most (padded (k + 1) n ++ rest) = some (n, rest) := by
  obtain ⟨ds, eq, length, digits, value⟩ := exists_padded_eq (k + 1) n
  obtain ⟨m, positive⟩ : ∃ m, ds.length = m + 1 := Nat.exists_eq_succ_of_ne_zero (by omega)
  rw [eq, List.length_map] at fits
  rw [number, trimStart_padded, eq, digitsUpTo_map digits fits (.inr ends), value, positive, Nat.zero_add]
  rfl

theorem mark_cons {c : Char} (visible : Text.isBlank c = false) (rest : List Char) : mark c (c :: rest) = some rest := by
  have here : Text.trimStart (c :: rest) = c :: rest := List.dropWhile_cons_of_neg (by simp [visible])
  rw [mark, here]
  exact if_pos rfl

/-- A year is read up to the hyphen. -/
theorem year_writeYear (y : Int) (rest : List Char) : year (writeYear y ++ '-' :: rest) = some (y, '-' :: rest) := by
  have ended : Ended ('-' :: rest) := rfl
  have digits : (((padded 4 y.natAbs ++ '-' :: rest).head?.bind Text.digit?).isNone) = false := by
    obtain ⟨d, small, cs, eq⟩ := exists_padded_eq_cons 3 y.natAbs
    simp [eq, digit?_digitChar d small]
  have fits : (padded 4 y.natAbs).length ≤ (padded 4 y.natAbs ++ '-' :: rest).length := by simp
  unfold writeYear
  split
  · rename_i short
    have small : y.natAbs < 10 ^ (3 + 1) := by omega
    have value : (y.natAbs : Int) = y := by omega
    have plain : year (padded 4 y.natAbs ++ '-' :: rest) =
        (number 4 (padded 4 y.natAbs ++ '-' :: rest)).map fun p => ((p.1 : Int), p.2) := by
      obtain ⟨d, digit, cs, eq⟩ := exists_padded_eq_cons 3 y.natAbs
      obtain ⟨notPlus, notMinus⟩ := digitChar_ne_sign d digit
      unfold year
      rw [trimStart_padded]
      split
      · rename_i starts
        rw [eq] at starts
        exact absurd (List.cons.inj starts).1 notMinus
      · rename_i starts
        rw [eq] at starts
        exact absurd (List.cons.inj starts).1 notPlus
      · rfl
    rw [plain, number_padded small]
    simp only [Option.map_some, value]
  · have read := number_padded_of_ended fits ended
    split
    · rename_i negative
      have value : -(y.natAbs : Int) = y := by omega
      have minus : Text.trimStart ('-' :: padded 4 y.natAbs ++ '-' :: rest) = '-' :: (padded 4 y.natAbs ++ '-' :: rest) :=
        List.dropWhile_cons_of_neg (by decide)
      rw [year, minus]
      simp only [digits, Bool.false_eq_true, if_false, read, Option.map_some, value]
    · have value : (y.natAbs : Int) = y := by omega
      have plus : Text.trimStart ('+' :: padded 4 y.natAbs ++ '-' :: rest) = '+' :: (padded 4 y.natAbs ++ '-' :: rest) :=
        List.dropWhile_cons_of_neg (by decide)
      rw [year, plus]
      simp only [digits, Bool.false_eq_true, if_false, read, Option.map_some, value]

theorem fraction_padded {k n : Nat} (small : n < 10 ^ (k + 1)) (fits : k + 1 ≤ 9) (rest : List Char) :
    fraction ('.' :: padded (k + 1) n ++ 'Z' :: rest) = some (n * Nat.pow 10 (9 - (k + 1)), 'Z' :: rest) := by
  have ended : Ended ('Z' :: rest) := rfl
  have left : ('Z' :: rest).dropWhile Char.isDigit = 'Z' :: rest := List.dropWhile_cons_of_neg (by decide)
  rw [List.cons_append, fraction, digitsUpTo_padded small fits (.inr ended)]
  simp only [left]

theorem fraction_writeFraction {n : Nat} (small : n < 1000000000) (rest : List Char) :
    fraction (writeFraction n ++ 'Z' :: rest) = some (n, 'Z' :: rest) := by
  unfold writeFraction
  split
  · rename_i none
    subst none
    rfl
  · split
    · rw [fraction_padded (by omega) (by decide), show Nat.pow 10 (9 - (2 + 1)) = 1000000 from rfl]
      congr 2
      omega
    · split
      · rw [fraction_padded (by omega) (by decide), show Nat.pow 10 (9 - (5 + 1)) = 1000 from rfl]
        congr 2
        omega
      · rw [fraction_padded (by omega) (by decide), show Nat.pow 10 (9 - (8 + 1)) = 1 from rfl, Nat.mul_one]

/-- A part that is read leaves the others to be read. -/
theorem bind_of_eq_some {α β : Type} {part : Option α} {a : α} (eq : part = some a) (others : α → Option β) :
    (part >>= others) = others a := by
  rw [eq]
  rfl

theorem small_of_valid {d : Date} (valid : d.valid = true) : d.month < 100 ∧ d.day < 100 := by
  have short : ∀ month, daysInMonth d.year month ≤ 31 := by
    intro month
    unfold daysInMonth
    split
    · split <;> decide
    all_goals decide
  simp only [Date.valid, Bool.and_eq_true, decide_eq_true_eq] at valid
  have := short d.month
  omega

/-- What is read of the parts of a timestamp. -/
theorem read_parts {date : Date} {hour minute second nanos : Nat} (valid : date.valid = true) (hours : hour < 100)
    (minutes : minute < 100) (seconds : second < 100) (fractions : nanos < 1000000000) :
    read (String.ofList (writeYear date.year ++ '-' :: padded 2 date.month ++ '-' :: padded 2 date.day ++ 'T' :: padded 2 hour ++
      ':' :: padded 2 minute ++ ':' :: padded 2 second ++ writeFraction nanos ++ ['Z'])) =
      let minutes : Int := date.toDays * 1440 + hour * 60 + minute - 0
      if date.valid ∧ inReach date.toDays ∧ inReach (minutes / 1440) ∧ hour < 24 ∧ minute < 60 ∧ second ≤ 60 ∧
          (Text.trimStart []).isEmpty then
        some ⟨(minutes * 60 + second) * Instant.nanosPerSecond + nanos, second == 60⟩
      else none := by
  have hyphen := mark_cons (c := '-') (by decide)
  have colon := mark_cons (c := ':') (by decide)
  have two {n : Nat} (small : n < 100) := number_padded (k := 1) small
  obtain ⟨months, days⟩ := small_of_valid valid
  unfold read
  simp only [String.toList_ofList, List.append_assoc, List.cons_append]
  rw [bind_of_eq_some (year_writeYear _ _), bind_of_eq_some (hyphen _), bind_of_eq_some (two months _), bind_of_eq_some (hyphen _),
    bind_of_eq_some (two days _)]
  dsimp only
  rw [if_pos (.inl rfl), bind_of_eq_some rfl, bind_of_eq_some (two hours _), bind_of_eq_some (colon _), bind_of_eq_some (two minutes _),
    bind_of_eq_some (colon _), bind_of_eq_some (two seconds _), bind_of_eq_some (fraction_writeFraction fractions _)]
  rfl

/-- Seconds are counted again from their days, hours and minutes. -/
theorem minutes_eq {seconds : Int} {inDay : Nat} (ofInDay : inDay = (seconds % 86400).toNat) :
    (seconds / 86400 * 1440 + (inDay / 3600 : Nat) * 60 + (inDay / 60 % 60 : Nat) - 0) * 60 + (inDay % 60 : Nat) = seconds ∧
      (seconds / 86400 * 1440 + (inDay / 3600 : Nat) * 60 + (inDay / 60 % 60 : Nat) - 0) / 1440 = seconds / 86400 := by
  omega

/-- **A timestamp is read as the instant that it was written for.** -/
theorem read_zulu {t : Instant} (nameable : t.Nameable) : read (zulu t) = some t := by
  obtain ⟨seconds, ofSeconds⟩ : ∃ seconds, seconds = t.written / Instant.nanosPerSecond := ⟨_, rfl⟩
  obtain ⟨inDay, ofInDay⟩ : ∃ inDay, inDay = (seconds % 86400).toNat := ⟨_, rfl⟩
  obtain ⟨second, ofSecond⟩ : ∃ second, second = inDay % 60 + if t.leap then 1 else 0 := ⟨_, rfl⟩
  obtain ⟨fractions, ofFractions⟩ : ∃ fractions, fractions = (t.written % Instant.nanosPerSecond).toNat := ⟨_, rfl⟩
  have valid := valid_ofDays (seconds / 86400)
  obtain ⟨counted, within⟩ := minutes_eq ofInDay
  have early : inDay < 86400 := by omega
  have small : second ≤ 60 ∧ fractions < 1000000000 := by
    simp only [Instant.nanosPerSecond] at ofFractions
    split at ofSecond <;> omega
  have text : zulu t = String.ofList (writeYear (Date.ofDays (seconds / 86400)).year ++ '-' ::
      padded 2 (Date.ofDays (seconds / 86400)).month ++ '-' :: padded 2 (Date.ofDays (seconds / 86400)).day ++ 'T' ::
      padded 2 (inDay / 3600) ++ ':' :: padded 2 (inDay / 60 % 60) ++ ':' :: padded 2 second ++ writeFraction fractions ++ ['Z']) := by
    rw [ofSecond, ofFractions, ofInDay, ofSeconds]
    rfl
  have inReach : inReach (seconds / 86400) = true := ofSeconds ▸ nameable.inReach
  rw [text, read_parts valid (by omega) (by omega) (by omega) small.2]
  simp only [toDays_ofDays, within]
  rw [if_pos ⟨valid, inReach, inReach, by omega, by omega, small.1, rfl⟩]
  obtain ⟨nanos, leap⟩ := t
  have minute : leap = true → nanos / Instant.nanosPerSecond % 60 = 0 := nameable.leap
  simp only [Option.some.injEq, Instant.mk.injEq]
  simp only [Instant.written, Instant.nanosPerSecond] at *
  cases leap with
  | false =>
    simp only [Bool.false_eq_true, if_false, Nat.add_zero] at ofSeconds ofSecond ofFractions
    refine ⟨?_, beq_eq_false_iff_ne.2 (by omega)⟩
    rw [ofSecond, counted]
    omega
  | true =>
    simp only [if_true] at ofSeconds ofSecond ofFractions
    refine ⟨?_, beq_iff_eq.2 ?_⟩
    · rw [ofSecond, Nat.cast_add, ← add_assoc, counted]
      omega
    · have whole := minute rfl
      omega

end Rfc3339

end Proctor
