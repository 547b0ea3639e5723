import Mathlib.Tactic.SplitIfs

/-!
# Texts in the order of their bytes

Texts are ordered by their characters. This is the order of their UTF-8 bytes: of two characters the one with the
smaller code begins with a smaller byte, or both take as many bytes and differ first in a digit to the base 64.
-/

set_option autoImplicit false

namespace Proctor.Text

/-- The bytes of a text. -/
def utf8 (s : String) : List UInt8 := s.toUTF8.data.toList

theorem utf8_eq_flatMap (s : String) : utf8 s = s.toList.flatMap String.utf8EncodeChar := by
  have bytes : s.toByteArray = s.toList.utf8Encode := by rw [← String.toByteArray_ofList, String.ofList_toList]
  rw [utf8, String.toUTF8_eq_toByteArray, bytes, List.utf8Encode, List.data_toByteArray]

/-- The smaller of two numbers has the smaller of the first digits to the base 64 in which they differ. -/
theorem sextets_lt {m n : Nat} (lt : m < n) :
    m / 262144 < n / 262144 ∨ m / 262144 = n / 262144 ∧ (m / 4096 % 64 < n / 4096 % 64 ∨
      m / 4096 % 64 = n / 4096 % 64 ∧ (m / 64 % 64 < n / 64 % 64 ∨ m / 64 % 64 = n / 64 % 64 ∧ m % 64 < n % 64)) := by
  have first (k : Nat) : k / 262144 = k / 4096 / 64 := by omega
  have second (k : Nat) : k / 4096 = k / 64 / 64 := by omega
  rw [first, first, second, second]
  generalize m / 64 / 64 = m', n / 64 / 64 = n', hm : m / 64 = m'', hn : n / 64 = n'' at *
  omega

theorem utf8EncodeChar_lt {c d : Char} (lt : c < d) (xs ys : List UInt8) :
    String.utf8EncodeChar c ++ xs < String.utf8EncodeChar d ++ ys := by
  have below : c.val.toNat < d.val.toNat := lt
  have last : d.val.toNat < 0x110000 := by
    have valid := d.valid
    simp only [UInt32.isValidChar, Nat.isValidChar] at valid
    omega
  unfold String.utf8EncodeChar
  generalize c.val.toNat = m, d.val.toNat = n at *
  have digits := sextets_lt below
  simp only
  -- one case for each pair of sizes
  split_ifs <;>
    simp (disch := omega) only [Nat.mod_eq_of_lt, List.cons_append, List.nil_append, List.cons_lt_cons_iff,
      UInt8.lt_iff_toNat_lt, UInt8.toNat_ofNat', ← UInt8.toNat_inj] <;>
    omega

theorem flatMap_utf8EncodeChar_lt {cs ds : List Char} (lt : cs < ds) :
    cs.flatMap String.utf8EncodeChar < ds.flatMap String.utf8EncodeChar := by
  induction lt with
  | nil =>
    rename_i d ds
    cases bytes : String.utf8EncodeChar d with
    | nil => exact absurd bytes (by simp)
    | cons b bs =>
      rw [List.flatMap_cons, bytes]
      exact List.nil_lt_cons _ _
  | cons _ ih => exact List.append_left_lt ih
  | rel lt => exact utf8EncodeChar_lt lt _ _

/-- Texts are ordered as their bytes are. -/
theorem utf8_lt_iff {s t : String} : utf8 s < utf8 t ↔ s < t := by
  have bytes_lt {s t : String} (lt : s < t) : utf8 s < utf8 t := by
    rw [utf8_eq_flatMap, utf8_eq_flatMap]
    exact flatMap_utf8EncodeChar_lt (String.lt_iff.1 lt)
  refine ⟨fun lt => ?_, bytes_lt⟩
  by_cases below : s < t
  · exact below
  by_cases above : t < s
  · exact absurd (bytes_lt above) (List.lt_asymm lt)
  · have same : s = t := String.le_antisymm (String.not_lt.1 above) (String.not_lt.1 below)
    exact absurd (same ▸ lt) (List.lt_irrefl _)

theorem compare_eq_lt_iff {s t : String} : compare s t = .lt ↔ utf8 s < utf8 t :=
  compareOfLessAndEq_eq_lt.trans utf8_lt_iff.symm

end Proctor.Text
