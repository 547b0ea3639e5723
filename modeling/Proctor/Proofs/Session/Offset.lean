import Proctor.Http.Query
import Proctor.Proofs.Text.Integer
import Proctor.Session.Paging

/-!
# The number of sessions before a page, on words

A page and its size come as signed 64-bit words, and the number of sessions before the page is computed on words: it is the product of the
page before and the size, neither taken below zero. The product stops at the bounds of words (`toInt_timesBounded`), but the page before is
a plain difference and may be no word (`minus?_one_eq_none_iff`). Main statement: `Filter.offset_of_words`. A query asks for none of
the pages where this matters (`Http.Query.offset?_of_filter`).
-/

set_option autoImplicit false

namespace Proctor

open Text.Width (signed64)

/-! ## Arithmetic on words -/

namespace Word

/-- The difference, if it is a word. -/
def minus? (a b : Int64) : Option Int64 := if a.toBitVec.ssubOverflow b.toBitVec then none else some (a - b)

/-- The product, or the bound of words that it lies beyond. -/
def timesBounded (a b : Int64) : Int64 :=
  if a.toBitVec.smulOverflow b.toBitVec then (if (a < 0) = (b < 0) then Int64.maxValue else Int64.minValue) else a * b

variable {a b c page perPage : Int64}

theorem bounds (a : Int64) : signed64.least ≤ a.toInt ∧ a.toInt ≤ signed64.greatest := ⟨a.minValue_le_toInt, a.toInt_le⟩

theorem toInt_max (a b : Int64) : (max a b).toInt = max a.toInt b.toInt := by
  show (if a ≤ b then b else a).toInt = if a.toInt ≤ b.toInt then b.toInt else a.toInt
  simp only [Int64.le_iff_toInt_le]
  split <;> rfl

theorem lt_zero_iff : a < 0 ↔ a.toInt < 0 := Int64.lt_iff_toInt_lt

theorem ssubOverflow_iff : a.toBitVec.ssubOverflow b.toBitVec = true ↔ signed64.holds (a.toInt - b.toInt) = false := by
  rw [Bool.eq_false_iff, ne_eq, Text.Width.holds_iff]
  simp only [BitVec.ssubOverflow, Int64.toInt_toBitVec, Bool.or_eq_true, decide_eq_true_eq, signed64]
  omega

/-- A difference that is given is exact. -/
theorem toInt_of_minus? (given : minus? a b = some c) : c = a - b ∧ c.toInt = a.toInt - b.toInt := by
  unfold minus? at given
  split at given
  case isTrue => cases given
  case isFalse exact =>
    cases given
    exact ⟨rfl, BitVec.toInt_sub_of_not_ssubOverflow exact⟩

theorem minus?_eq_none_iff : minus? a b = none ↔ signed64.holds (a.toInt - b.toInt) = false := by
  rw [minus?, ← ssubOverflow_iff]
  simp

/-- The least word alone has no word before it. -/
theorem minus?_one_eq_none_iff : minus? a 1 = none ↔ a = Int64.minValue := by
  have := bounds a
  rw [minus?_eq_none_iff, ← Int64.toInt_inj, Int64.toInt_minValue, Bool.eq_false_iff, ne_eq, Text.Width.holds_iff,
    show (1 : Int64).toInt = 1 from rfl]
  simp only [signed64] at this ⊢
  omega

theorem mul_nonneg_of_alike (alike : (a < 0) = (b < 0)) : 0 ≤ a.toInt * b.toInt := by
  rw [lt_zero_iff, lt_zero_iff, eq_iff_iff] at alike
  by_cases negative : a.toInt < 0
  · exact Int.mul_nonneg_of_nonpos_of_nonpos (by omega) (by omega)
  · exact Int.mul_nonneg (by omega) (by omega)

theorem mul_nonpos_of_unlike (unlike : ¬(a < 0) = (b < 0)) : a.toInt * b.toInt ≤ 0 := by
  rw [lt_zero_iff, lt_zero_iff, eq_iff_iff] at unlike
  by_cases negative : a.toInt < 0
  · exact Int.mul_nonpos_of_nonpos_of_nonneg (by omega) (by omega)
  · exact Int.mul_nonpos_of_nonneg_of_nonpos (by omega) (by omega)

/-- **A product** is exact as far as words reach. -/
theorem toInt_timesBounded (a b : Int64) :
    (timesBounded a b).toInt = max signed64.least (min signed64.greatest (a.toInt * b.toInt)) := by
  unfold timesBounded
  split
  case isTrue lost =>
    simp only [BitVec.smulOverflow, Int64.toInt_toBitVec, Bool.or_eq_true, decide_eq_true_eq] at lost
    -- a product that is lost is not zero, so its sign tells the bound
    split
    case isTrue alike =>
      have nonneg := mul_nonneg_of_alike alike
      rw [Int64.toInt_maxValue]
      simp only [signed64]
      omega
    case isFalse unlike =>
      have nonpos := mul_nonpos_of_unlike unlike
      rw [Int64.toInt_minValue]
      simp only [signed64]
      omega
  case isFalse exact =>
    have same : (a * b).toInt = a.toInt * b.toInt := BitVec.toInt_mul_of_not_smulOverflow exact
    have := bounds (a * b)
    omega

/-! ## Pages -/

/-- The number of sessions on the pages up to this one. -/
def through (page perPage : Int64) : Int64 := timesBounded (max page 0) (max perPage 0)

/-- The number of sessions before a page, if the page before is a word. -/
def offset? (page perPage : Int64) : Option Int64 := (minus? page 1).map fun before => through before perPage

/-- The same with the page before cut down to a word, whether it is one or not. -/
def wrappedOffset (page perPage : Int64) : Int64 := through (page - 1) perPage

/-- Nothing here is below zero, so only the greatest word is a bound. -/
theorem toInt_through (page perPage : Int64) :
    (through page perPage).toInt = min (max page.toInt 0 * max perPage.toInt 0) signed64.greatest := by
  have nonneg : 0 ≤ max page.toInt 0 * max perPage.toInt 0 := Int.mul_nonneg (by omega) (by omega)
  rw [through, toInt_timesBounded, toInt_max, toInt_max, Int64.toInt_zero]
  simp only [signed64]
  omega

/-- A page with a word before it. -/
theorem exists_offset? (inner : page ≠ Int64.minValue) :
    ∃ n, offset? page perPage = some n ∧ wrappedOffset page perPage = n ∧
      n.toInt = min (max (page.toInt - 1) 0 * max perPage.toInt 0) signed64.greatest := by
  obtain ⟨before, given⟩ := Option.ne_none_iff_exists'.1 (mt minus?_one_eq_none_iff.1 inner)
  obtain ⟨rfl, exact⟩ := toInt_of_minus? given
  refine ⟨through (page - 1) perPage, by rw [offset?, given, Option.map_some], rfl, ?_⟩
  rw [toInt_through, exact]
  rfl

/-- Before the least word comes the greatest one, when digits are dropped. -/
theorem toInt_wrappedOffset_minValue (perPage : Int64) :
    (wrappedOffset Int64.minValue perPage).toInt = if 1 ≤ perPage.toInt then signed64.greatest else 0 := by
  have before : max (Int64.minValue - 1).toInt 0 = 9223372036854775807 := by decide
  rw [wrappedOffset, toInt_through, before]
  simp only [signed64]
  split <;> omega

end Word

/-- **The number of sessions before a page**, for any two words. If the page has a word before it, each step of the computation gives a word, and
what comes out is the number of whole numbers, cut at the greatest word. The least word has none: there the computation ends without
a number, or, if digits are dropped, takes the greatest page for the one before, so that it counts as many sessions as there are words above zero,
unless pages are empty. -/
theorem Filter.offset_of_words (user : Option Uuid) (status : Option Status) (page perPage : Int64) :
    let f : Filter := ⟨user, status, page.toInt, perPage.toInt⟩
    f.offset? = (Word.offset? page perPage).map Int64.toInt ∧
      (page ≠ Int64.minValue → ∃ n, Word.offset? page perPage = some n ∧ Word.wrappedOffset page perPage = n ∧
        n.toInt = min (max (page.toInt - 1) 0 * max perPage.toInt 0) signed64.greatest) ∧
      (page = Int64.minValue → Word.offset? page perPage = none ∧
        (Word.wrappedOffset page perPage).toInt = if 1 ≤ perPage.toInt then signed64.greatest else 0) := by
  intro f
  have none_iff : signed64.holds (page.toInt - 1) = false ↔ page = Int64.minValue :=
    Word.minus?_eq_none_iff.symm.trans Word.minus?_one_eq_none_iff
  refine ⟨?_, Word.exists_offset?, ?_⟩
  · by_cases least : page = Int64.minValue
    · rw [Filter.offset?, if_neg (by simp [f, none_iff.2 least]), Word.offset?, Word.minus?_one_eq_none_iff.2 least]
      rfl
    · obtain ⟨n, given, -, exact⟩ := @Word.exists_offset? page perPage least
      rw [Filter.offset?, if_pos (by simpa [f] using mt none_iff.1 least), given, Option.map_some, exact]
      rfl
  · rintro rfl
    exact ⟨by rw [Word.offset?, Word.minus?_one_eq_none_iff.2 rfl, Option.map_none], Word.toInt_wrappedOffset_minValue perPage⟩

/-- Before the least page the number is neither given nor, with digits dropped, right: it should be zero. -/
theorem Filter.not_offset_always :
    (¬∀ page perPage : Int64, (⟨none, none, page.toInt, perPage.toInt⟩ : Filter).offset? =
      some (min (max (page.toInt - 1) 0 * max perPage.toInt 0) signed64.greatest)) ∧
    ¬∀ page perPage : Int64, (Word.wrappedOffset page perPage).toInt =
      min (max (page.toInt - 1) 0 * max perPage.toInt 0) signed64.greatest := by
  refine ⟨fun always => ?_, fun always => ?_⟩
  · exact absurd (always Int64.minValue 20) (by decide)
  · exact absurd (always Int64.minValue 20) (by decide)

/-! ## Listings that a query asks for -/

namespace Http.Query

variable {query : List Char} {f : Filter}

theorem faults_eq_nil_iff {page perPage : Option Int} :
    faults page perPage = [] ↔ (∀ n ∈ page, 1 ≤ n ∧ n ≤ 100000) ∧ ∀ n ∈ perPage, 1 ≤ n ∧ n ≤ 100 := by
  cases page <;> cases perPage <;> simp [faults]

/-- The page and its size are within their bounds, whether they were asked for or not. -/
theorem bounded_of_filter (read : filter query = .ok f) : (1 ≤ f.page ∧ f.page ≤ 100000) ∧ 1 ≤ f.perPage ∧ f.perPage ≤ 100 := by
  obtain ⟨user, -, read⟩ := exists_of_bind_eq_ok read
  obtain ⟨status, -, read⟩ := exists_of_bind_eq_ok read
  obtain ⟨page, -, read⟩ := exists_of_bind_eq_ok read
  obtain ⟨perPage, -, read⟩ := exists_of_bind_eq_ok read
  split at read
  case h_2 => cases read
  case h_1 sound =>
    cases read
    obtain ⟨first, usual⟩ := faults_eq_nil_iff.1 sound
    constructor
    · cases page with
      | none => exact (by decide : 1 ≤ firstPage ∧ firstPage ≤ 100000)
      | some n => exact first n rfl
    · cases perPage with
      | none => exact (by decide : 1 ≤ usualLength ∧ usualLength ≤ 100)
      | some n => exact usual n rfl

/-- **A listing that a query asks for has an offset**, and no bound of words is reached. -/
theorem offset?_of_filter (read : filter query = .ok f) : f.offset? = some ((f.page - 1) * f.perPage) := by
  obtain ⟨⟨first, last⟩, positive, short⟩ := bounded_of_filter read
  have before : signed64.holds (f.page - 1) = true := by
    rw [Text.Width.holds_iff]
    simp only [signed64]
    omega
  have nonneg : 0 ≤ (f.page - 1) * f.perPage := Int.mul_nonneg (by omega) (by omega)
  have few : (f.page - 1) * f.perPage ≤ 99999 * 100 := Int.mul_le_mul (by omega) short (by omega) (by decide)
  rw [Filter.offset?, if_pos before, Filter.offset, Int.max_eq_left (by omega), Int.max_eq_left (by omega), Int.min_eq_left]
  simp only [signed64]
  omega

end Http.Query

end Proctor
