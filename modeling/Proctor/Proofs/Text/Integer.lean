import Proctor.Text.Blank
import Proctor.Text.Integer

/-!
# Numbers written and read

What `Integer.text` writes is read again, also after trimming, if the number fits the width. Reading goes through the
digits from left to right and so undoes the writing, which puts them down from right to left. `decimals` are their values, from which
the number is made again (`ofDecimals_decimals`).
-/

set_option autoImplicit false

namespace Proctor.Text

/-- Nothing is trimmed where nothing is blank. -/
theorem trim_of_all_visible {cs : List Char} (visible : ∀ c ∈ cs, isBlank c = false) : trim cs = cs := by
  have kept {ds : List Char} (visible : ∀ c ∈ ds, isBlank c = false) : ds.dropWhile isBlank = ds := by
    cases ds with
    | nil => rfl
    | cons d ds => rw [List.dropWhile_cons_of_neg (by simp [visible d])]
  rw [trim, trimStart, kept visible, trimEnd, kept fun c listed => visible c (List.mem_reverse.1 listed), List.reverse_reverse]

theorem Width.holds_iff {w : Width} {n : Int} : w.holds n = true ↔ w.least ≤ n ∧ n ≤ w.greatest := by
  simp [holds]

namespace Integer

theorem digit?_digitChar : ∀ d < 10, digit? (digitChar d) = some d := by decide

theorem isBlank_digitChar : ∀ d < 10, isBlank (digitChar d) = false := by decide

theorem digitChar_ne_sign : ∀ d < 10, digitChar d ≠ '+' ∧ digitChar d ≠ '-' := by decide

variable {bound : Nat} {beyond : IntegerFault}

/-- Reading the digits of a number within the bound goes on after it. -/
theorem readDigits_writeDigits {fuel n : Nat} (enough : n < fuel) (le : n ≤ bound) (acc : List Char) :
    readDigits bound beyond 0 (writeDigits fuel n acc) = readDigits bound beyond n acc := by
  have step {m d : Nat} (small : d < 10) (le : m * 10 + d ≤ bound) (acc : List Char) :
      readDigits bound beyond m (digitChar d :: acc) = readDigits bound beyond (m * 10 + d) acc := by
    simp [readDigits, digit?_digitChar d small, Nat.not_lt.2 le]
  induction fuel generalizing n acc with
  | zero => omega
  | succ fuel ih =>
    unfold writeDigits
    split
    · rename_i small
      simpa using step (m := 0) small (by simpa using le) acc
    · have last : n / 10 * 10 + n % 10 = n := by omega
      rw [ih (by omega) (by omega), step (by omega) (last.symm ▸ le), last]

theorem readDigits_digits {n : Nat} (le : n ≤ bound) : readDigits bound beyond 0 (digits n) = .ok n :=
  (readDigits_writeDigits (Nat.lt_succ_self n) le []).trans rfl

theorem mem_writeDigits {fuel n : Nat} {acc : List Char} {c : Char} (listed : c ∈ writeDigits fuel n acc) :
    (∃ d < 10, c = digitChar d) ∨ c ∈ acc := by
  induction fuel generalizing n acc with
  | zero => exact .inr listed
  | succ fuel ih =>
    unfold writeDigits at listed
    split at listed
    · rename_i small
      exact (List.mem_cons.1 listed).imp_left fun e => ⟨n, small, e⟩
    · obtain digit | listed := ih listed
      · exact .inl digit
      · exact (List.mem_cons.1 listed).imp_left fun e => ⟨n % 10, by omega, e⟩

theorem mem_digits {n : Nat} {c : Char} (listed : c ∈ digits n) : ∃ d < 10, c = digitChar d :=
  (mem_writeDigits listed).resolve_right (List.not_mem_nil)

/-- The digits of a number begin with a digit. -/
theorem exists_writeDigits_eq_cons (fuel n : Nat) (acc : List Char) :
    ∃ d < 10, ∃ rest, writeDigits (fuel + 1) n acc = digitChar d :: rest := by
  induction fuel generalizing n acc with
  | zero => exact ⟨n % 10, by omega, acc, by unfold writeDigits; split <;> simp_all [writeDigits, Nat.mod_eq_of_lt]⟩
  | succ fuel ih =>
    unfold writeDigits
    split
    · rename_i small
      exact ⟨n, small, acc, rfl⟩
    · exact ih _ _

theorem above_digits {w : Width} {n : Nat} (le : (n : Int) ≤ w.greatest) : read.above w (digits n) = .ok n := by
  have below : n ≤ w.greatest.natAbs := by omega
  rw [read.above, readDigits_digits below]
  rfl

theorem visible_text {n : Int} {c : Char} (listed : c ∈ (text n).toList) : isBlank c = false := by
  have digit (listed : c ∈ digits n.natAbs) : isBlank c = false := by
    obtain ⟨d, small, rfl⟩ := mem_digits listed
    exact isBlank_digitChar d small
  unfold text at listed
  split at listed
  · rw [String.toList_ofList] at listed
    obtain rfl | listed := List.mem_cons.1 listed
    · decide
    · exact digit listed
  · rw [String.toList_ofList] at listed
    exact digit listed

theorem readDigits_le {n m : Nat} {cs : List Char} (le : n ≤ bound) (read : readDigits bound beyond n cs = .ok m) : m ≤ bound := by
  induction cs generalizing n with
  | nil =>
    cases read
    exact le
  | cons c cs ih =>
    unfold readDigits at read
    split at read
    · cases read
    · split at read
      · cases read
      · rename_i fits
        exact ih (Nat.not_lt.1 fits) read

theorem holds_of_readDigits {w : Width} {cs : List Char} {f : Int → Int} {n : Int}
    (holds : ∀ m : Nat, m ≤ bound → w.holds (f m) = true)
    (eq : Except.map f (do let m ← readDigits bound beyond 0 cs; pure (m : Int)) = .ok n) : w.holds n = true := by
  cases digits : readDigits bound beyond 0 cs with
  | error fault =>
    rw [digits] at eq
    cases eq
  | ok m =>
    rw [digits] at eq
    cases eq
    exact holds m (readDigits_le (Nat.zero_le _) digits)

/-- What is read has the width. -/
theorem holds_of_read {w : Width} {cs : List Char} {n : Int} (least : w.least ≤ 0) (greatest : 0 ≤ w.greatest)
    (eq : read w cs = .ok n) : w.holds n = true := by
  have above {cs : List Char} (eq : read.above w cs = .ok n) : w.holds n = true := by
    refine holds_of_readDigits (fun m le => ?_) eq
    rw [Width.holds_iff]
    omega
  unfold read at eq
  split at eq
  · cases eq
  · split at eq
    · cases eq
    · exact above eq
  · split at eq
    · cases eq
    · refine holds_of_readDigits (fun m le => ?_) eq
      rw [Width.holds_iff]
      omega
  · exact above eq

/-- A number that has the width is read as it is written. -/
theorem read_text {w : Width} {n : Int} (fits : w.holds n = true) : read w (text n).toList = .ok n := by
  obtain ⟨least, greatest⟩ : w.least ≤ n ∧ n ≤ w.greatest := by simpa [Width.holds] using fits
  obtain ⟨d, small, rest, shape⟩ : ∃ d < 10, ∃ rest, digits n.natAbs = digitChar d :: rest :=
    exists_writeDigits_eq_cons _ _ _
  unfold text
  split
  · rename_i negative
    have nonzero : w.least ≠ 0 := by omega
    have below : n.natAbs ≤ w.least.natAbs := by omega
    have value : -(n.natAbs : Int) = n := by omega
    have some : (digits n.natAbs).isEmpty = false := by rw [shape]; rfl
    rw [String.toList_ofList, read, some, if_neg (by simpa using nonzero), readDigits_digits below]
    exact congrArg Except.ok value
  · have value : (n.natAbs : Int) = n := by omega
    have unsigned : read w (digits n.natAbs) = read.above w (digits n.natAbs) := by
      obtain ⟨notPlus, notMinus⟩ := digitChar_ne_sign d small
      rw [shape]
      exact read.eq_4 _ _ nofun (by simpa using notPlus) (by simpa using notMinus)
    rw [String.toList_ofList, unsigned, above_digits (value.symm ▸ greatest), value]

/-- The texts of numbers that have a width tell them apart. -/
theorem text_inj {w : Width} {m n : Int} (fitsM : w.holds m = true) (fitsN : w.holds n = true) : text m = text n ↔ m = n := by
  constructor
  · intro same
    have read := read_text fitsM
    rw [same, read_text fitsN] at read
    exact (Except.ok.inj read).symm
  · exact congrArg text

/-- Blanks do not matter to a number that has none. -/
theorem trim_text (n : Int) : trim (text n).toList = (text n).toList :=
  trim_of_all_visible fun _ => visible_text

/-- The texts of distinct numbers are distinct. -/
theorem nodup_map_text {α : Type} {w : Width} {l : List α} {id : α → Int} (fits : ∀ a ∈ l, w.holds (id a) = true)
    (distinct : (l.map id).Nodup) : (l.map fun a => text (id a)).Nodup := by
  apply List.pairwise_map.2
  apply (List.pairwise_map.1 distinct).imp_of_mem
  intro a b listedA listedB apart same
  exact apart ((text_inj (fits a listedA) (fits b listedB)).1 same)

/-! ## The values of the digits -/

/-- The values of the decimal digits of `n`. -/
def decimals (n : Nat) : List Nat := if n < 10 then [n] else decimals (n / 10) ++ [n % 10]

/-- The number with these decimal digits after the number `n`. -/
def ofDecimals (n : Nat) (ds : List Nat) : Nat := ds.foldl (fun n d => n * 10 + d) n

theorem ofDecimals_append (n : Nat) (ds es : List Nat) : ofDecimals n (ds ++ es) = ofDecimals (ofDecimals n ds) es := List.foldl_append

theorem writeDigits_eq {fuel n : Nat} (enough : n < fuel) (acc : List Char) :
    writeDigits fuel n acc = (decimals n).map digitChar ++ acc := by
  induction fuel generalizing n acc with
  | zero => omega
  | succ fuel ih =>
    unfold writeDigits decimals
    split
    · rfl
    · rw [ih (by omega), List.map_append, List.append_assoc]
      rfl

theorem digits_eq (n : Nat) : digits n = (decimals n).map digitChar :=
  (writeDigits_eq (Nat.lt_succ_self n) []).trans (List.append_nil _)

theorem lt_ten_of_mem_decimals {n d : Nat} (listed : d ∈ decimals n) : d < 10 := by
  fun_induction decimals n with
  | case1 n small => exact List.mem_singleton.1 listed ▸ small
  | case2 n _ ih =>
    obtain listed | listed := List.mem_append.1 listed
    · exact ih listed
    · rw [List.mem_singleton.1 listed]
      omega

theorem ofDecimals_decimals (n : Nat) : ofDecimals 0 (decimals n) = n := by
  fun_induction decimals n with
  | case1 n _ => simp [ofDecimals]
  | case2 n _ ih =>
    rw [ofDecimals_append, ih]
    simp only [ofDecimals, List.foldl_cons, List.foldl_nil]
    omega

/-- The digits of a number begin with zero just if the number is zero. -/
theorem exists_decimals_eq_cons (n : Nat) : ∃ d rest, decimals n = d :: rest ∧ (d = 0 → rest = []) := by
  have positive : ∀ n, 0 < n → ∃ d rest, decimals n = d :: rest ∧ d ≠ 0 := by
    intro n
    fun_induction decimals n with
    | case1 n _ => exact fun positive => ⟨n, [], rfl, by omega⟩
    | case2 n _ ih =>
      intro _
      obtain ⟨d, rest, eq, nonzero⟩ := ih (by omega)
      exact ⟨d, rest ++ [n % 10], by rw [eq, List.cons_append], nonzero⟩
  obtain rfl | some := Nat.eq_zero_or_pos n
  · exact ⟨0, [], by rw [decimals, if_pos (by decide)], fun _ => rfl⟩
  · obtain ⟨d, rest, eq, nonzero⟩ := positive n some
    exact ⟨d, rest, eq, fun zero => absurd zero nonzero⟩

/-- Padding puts zeros in front. -/
theorem exists_padded_eq (width n : Nat) : ∃ ds : List Nat, padded width n = ds.map digitChar ∧
    ds.length = max width (decimals n).length ∧ (∀ d ∈ ds, d < 10) ∧ ofDecimals 0 ds = n := by
  refine ⟨List.replicate (width - (decimals n).length) 0 ++ decimals n, ?_, ?_, ?_, ?_⟩
  · rw [padded, digits_eq, List.length_map, List.map_append, List.map_replicate]
    rfl
  · rw [List.length_append, List.length_replicate]
    omega
  · intro d listed
    obtain listed | listed := List.mem_append.1 listed
    · rw [List.eq_of_mem_replicate listed]
      decide
    · exact lt_ten_of_mem_decimals listed
  · have zeros (m : Nat) : ofDecimals 0 (List.replicate m 0) = 0 := by
      induction m with
      | zero => rfl
      | succ m ih => exact ih
    rw [ofDecimals_append, zeros, ofDecimals_decimals]

end Integer

end Proctor.Text
