import Proctor.Json.Printer
import Proctor.Proofs.Json.Fields
import Proctor.Proofs.Text.Integer

/-!
# Values are read as they are written

What stands in the text of a value is read part by part, and each part is read up to its end: what follows it does not matter as long
as it cannot be taken for more of a number. So the text of a value is read as the draft of this value (`read_print`), which stands for it.
Main statement: `Value.writes_print`; it leaves out doubles, numbers beyond 64 bits and what is nested too deep.
-/

set_option autoImplicit false

namespace Proctor.Json

open Text (Symbol)

namespace Numeral

/-- The numeral of a whole number. -/
def ofInt (n : Int) : Numeral := ⟨n < 0, Text.Integer.decimals n.natAbs, none, none⟩

/-- All digits of a number that fits 64 bits are significant. -/
theorem significand_eq {n : Nat} {ds : List Nat} (fits : Text.Integer.ofDecimals n ds < word) :
    significand n ds = (Text.Integer.ofDecimals n ds, []) := by
  induction ds generalizing n with
  | nil => rfl
  | cons d ds ih =>
    have grows : ∀ {m : Nat} {es : List Nat}, m ≤ Text.Integer.ofDecimals m es := by
      intro m es
      induction es generalizing m with
      | nil => exact Nat.le_refl m
      | cons e es ih => exact Nat.le_trans (by omega) (ih (m := m * 10 + e))
    have small : n * 10 + d < word := Nat.lt_of_le_of_lt grows fits
    rw [significand, if_pos small]
    exact ih fits

theorem number?_ofInt {n : Int} (fits : Text.Width.signed64.holds n = true ∨ Text.Width.unsigned64.holds n = true) :
    (ofInt n).number? = some (.whole n) := by
  simp only [Text.Width.holds_iff, Text.Width.signed64, Text.Width.unsigned64] at fits
  have digits : significand 0 (Text.Integer.decimals n.natAbs) = (n.natAbs, []) := by
    have value := Text.Integer.ofDecimals_decimals n.natAbs
    rw [significand_eq (by rw [value, word]; omega), value]
  simp only [number?, ofInt, digits, List.isEmpty_nil, true_and, decide_eq_true_eq]
  split
  · rename_i positive
    rw [Int.natAbs_of_nonneg (by omega)]
  · rename_i negative
    rw [if_pos ⟨by omega, by omega⟩, Int.ofNat_natAbs_of_nonpos (by omega), Int.neg_neg]

end Numeral

namespace Value

mutual

/-- The draft of a value, with its fields in the order in which they are listed; a double has none. -/
def draft : Value → Draft
  | .null => .null
  | .bool b => .bool b
  | .number (.whole n) => .number (.ofInt n)
  | .number (.double _) => .broken
  | .string s => .string (.ok s)
  | .array items => .array (draftItems items) true
  | .object fields => .object (draftFields fields) true

def draftItems : List Value → List Draft
  | [] => []
  | v :: rest => draft v :: draftItems rest

def draftFields : List (String × Value) → List (Option String × Draft)
  | [] => []
  | (key, v) :: rest => (some key, draft v) :: draftFields rest

end

mutual

/-- A value that can be read again: its numbers are whole and fit 64 bits, and it is not too deep for where it lies. -/
def Readable (depth : Nat) : Value → Prop
  | .number (.whole n) => Text.Width.signed64.holds n = true ∨ Text.Width.unsigned64.holds n = true
  | .number (.double _) => False
  | .array items => depth < deepest ∧ ReadableItems (depth + 1) items
  | .object fields => depth < deepest ∧ fields.Pairwise (fun a b => compare a.1 b.1 = .lt) ∧ ReadableFields (depth + 1) fields
  | _ => True

def ReadableItems (depth : Nat) : List Value → Prop
  | [] => True
  | v :: rest => Readable depth v ∧ ReadableItems depth rest

def ReadableFields (depth : Nat) : List (String × Value) → Prop
  | [] => True
  | (_, v) :: rest => Readable depth v ∧ ReadableFields depth rest

end

end Value

namespace Draft

/-- The symbols of some characters. -/
abbrev sym (cs : List Char) : List Symbol := cs.map some

/-- The text is over, or goes on behind a value. -/
def Follows (rest : List Symbol) : Prop := rest = [] ∨ ∃ c cs, rest = some c :: cs ∧ c ∈ [',', ']', '\x7d']

variable {rest : List Symbol}

/-! ## Strings -/

theorem hexDigit?_hexChar : ∀ d < 16, Text.Percent.hexDigit? (hexChar d) = some d := by decide

theorem hexQuad_hexChars {n : Nat} (small : n < 0x10000) (rest : List Symbol) :
    hexQuad (sym [hexChar (n / 4096), hexChar (n / 256 % 16), hexChar (n / 16 % 16), hexChar (n % 16)] ++ rest) = some (n, rest) := by
  have value : n / 4096 * 4096 + n / 256 % 16 * 256 + n / 16 % 16 * 16 + n % 16 = n := by omega
  simp only [List.map_cons, List.map_nil, List.cons_append, List.nil_append, hexQuad, hexDigit?_hexChar (n / 4096) (by omega),
    hexDigit?_hexChar (n / 256 % 16) (by omega), hexDigit?_hexChar (n / 16 % 16) (by omega), hexDigit?_hexChar (n % 16) (by omega),
    Option.bind_eq_bind, Option.bind_some, value]

/-- An escaped character is read as one piece. -/
theorem pieces_escaped (fuel : Nat) (c : Char) (rest : List Symbol) :
    pieces (fuel + 1) (sym (escaped c) ++ rest) = (pieces fuel rest).map fun (ps, rest) => (.char c :: ps, rest) := by
  unfold escaped
  split
  case h_8 notQuote notSlash _ _ _ _ _ =>
    split
    · rename_i control
      have small : c.toNat < 0x10000 := by omega
      have code := hexQuad_hexChars small rest
      have proper : ¬(0xD800 ≤ c.toNat ∧ c.toNat < 0xE000) := by omega
      have same : Char.ofNat c.toNat = c := Char.ofNat_toNat c
      simp only [unicodeEscape, List.map_cons, List.map_nil, List.cons_append, List.nil_append] at code ⊢
      rw [pieces, code]
      simp only [Option.bind_eq_bind, Option.bind_some, if_neg proper, same]
      cases pieces fuel rest <;> rfl
    · rename_i printable
      have printable : ¬(c.toNat < 0x20 ∨ c = '\\') := fun bad => bad.elim (fun control => printable (.inl control)) notSlash
      show pieces (fuel + 1) (some c :: rest) = _
      rw [pieces, if_neg printable]
      · cases pieces fuel rest <;> rfl
      · exact notQuote
      · exact fun _ _ => notSlash
      · exact fun _ _ _ => notSlash
  all_goals cases next : pieces fuel rest <;> simp [pieces, escape?, next]

/-- The characters of a string are read up to its closing quote. -/
theorem pieces_flatMap {cs : List Char} {fuel : Nat} (enough : cs.length < fuel) (rest : List Symbol) :
    pieces fuel (sym (cs.flatMap escaped) ++ some '"' :: rest) = some (cs.map .char, rest) := by
  induction cs generalizing fuel with
  | nil =>
    cases fuel with
    | zero => cases enough
    | succ fuel => rfl
  | cons c cs ih =>
    cases fuel with
    | zero => cases enough
    | succ fuel =>
      rw [List.flatMap_cons, sym, List.map_append, List.append_assoc, pieces_escaped, ih (Nat.lt_of_succ_lt_succ enough)]
      rfl

theorem join_map_char (cs : List Char) : join (cs.map .char) = .ok cs := by
  induction cs with
  | nil => rfl
  | cons c cs ih =>
    rw [List.map_cons, join, ih]
    rfl

theorem length_le_flatMap_escaped (cs : List Char) : cs.length ≤ (cs.flatMap escaped).length := by
  have some (c : Char) : 1 ≤ (escaped c).length := by
    unfold escaped
    split <;> try decide
    split
    · exact Nat.le_add_left 1 5
    · exact Nat.le_refl 1
  induction cs with
  | nil => exact Nat.le_refl 0
  | cons c cs ih =>
    rw [List.flatMap_cons, List.length_append, List.length_cons]
    have := some c
    omega

/-- A string is read up to its closing quote. -/
theorem text_quoted (s : String) (rest : List Symbol) :
    ∃ cs, sym (quoted s) ++ rest = some '"' :: cs ∧ text cs = some (.ok s, rest) := by
  refine ⟨sym (s.toList.flatMap escaped) ++ some '"' :: rest, ?_, ?_⟩
  · simp only [quoted, sym, List.map_append, List.map_cons, List.map_nil, List.cons_append, List.append_assoc, List.nil_append]
  · have enough : s.toList.length < (sym (s.toList.flatMap escaped) ++ some '"' :: rest).length + 1 := by
      have := length_le_flatMap_escaped s.toList
      simp only [sym, List.length_append, List.length_map, List.length_cons]
      omega
    rw [text, pieces_flatMap enough]
    simp only [Option.map_some, join_map_char, Except.map, String.ofList_toList]

/-! ## Numbers -/

theorem digits_map {ds : List Nat} (small : ∀ d ∈ ds, d < 10) (ends : ∀ c cs, rest = c :: cs → c.bind Text.digit? = none) :
    digits (sym (ds.map Text.Integer.digitChar) ++ rest) = (ds, rest) := by
  induction ds with
  | nil =>
    cases rest with
    | nil => rfl
    | cons c cs => simp only [List.map_nil, List.nil_append, digits, ends c cs rfl]
  | cons d ds ih =>
    obtain ⟨first, later⟩ := List.forall_mem_cons.1 small
    have digit : Text.digit? (Text.Integer.digitChar d) = some d := Text.Integer.digit?_digitChar d first
    simp only [List.map_cons, List.cons_append, digits, Option.bind_some, digit, ih later]

/-- What follows on a value is no part of a number. -/
theorem not_of_number : ∀ c ∈ [',', ']', '\x7d'], Text.digit? c = none ∧ c ≠ '.' ∧ c ≠ 'e' ∧ c ≠ 'E' := by
  simp only [List.forall_mem_cons, List.not_mem_nil, false_implies, implies_true]
  decide

theorem exponent_of_follows (follows : Follows rest) : exponent rest = some (none, rest) := by
  obtain rfl | ⟨c, cs, rfl, listed⟩ := follows
  · rfl
  · obtain ⟨-, -, notLower, notUpper⟩ := not_of_number c listed
    simp [exponent, notLower, notUpper]

/-- The digits of a number are a numeral if no number can go on behind them. -/
theorem numeral_digits (negative : Bool) (n : Nat) (follows : Follows rest) :
    numeral negative (sym (Text.Integer.digits n) ++ rest) = some (⟨negative, Text.Integer.decimals n, none, none⟩, rest) := by
  have ends : ∀ c cs, rest = c :: cs → c.bind Text.digit? = none ∧ c ≠ some '.' := by
    intro c cs eq
    obtain none | ⟨c', cs', here, listed⟩ := follows
    · cases none.symm.trans eq
    · cases here.symm.trans eq
      obtain ⟨noDigit, noPoint, -, -⟩ := not_of_number c' listed
      exact ⟨noDigit, fun point => noPoint (Option.some.inj point)⟩
  obtain ⟨d, ds, eq, leading⟩ := Text.Integer.exists_decimals_eq_cons n
  unfold numeral
  rw [Text.Integer.digits_eq, digits_map (fun _ => Text.Integer.lt_ten_of_mem_decimals) fun c cs eq => (ends c cs eq).1]
  split
  · rename_i none
    cases eq.symm.trans (congrArg Prod.fst none)
  · rename_i zeros
    cases eq.symm.trans (congrArg Prod.fst zeros)
    cases leading rfl
  · rename_i point
    cases (congrArg Prod.snd point)
    exact absurd rfl (ends _ _ rfl).2
  · rename_i whole _ _ _ same
    cases same
    rw [exponent_of_follows follows]
    rfl

/-! ## Values -/

/-- A value, or a field, begins here. -/
def Starts (cs : List Symbol) : Prop := ∃ c rest, cs = some c :: rest ∧ isSpace c = false ∧ c ≠ ']' ∧ c ≠ '\x7d' ∧ c ≠ ','

variable {cs : List Symbol} {fuel : Nat}

theorem Starts.skipSpace_eq (starts : Starts cs) : skipSpace cs = cs := by
  obtain ⟨c, rest, rfl, visible, -⟩ := starts
  exact List.dropWhile_cons_of_neg (by simp [visible])

theorem elements_close (fuel : Nat) (first : Bool) (rest : List Symbol) :
    elements (fuel + 1) first (some ']' :: rest) = ([], true, rest) := rfl

theorem elements_first (starts : Starts cs) : elements (fuel + 1) true cs = item fuel cs := by
  have same := starts.skipSpace_eq
  obtain ⟨c, rest, rfl, -, notClose, -, notComma⟩ := starts
  unfold elements
  rw [same]
  split
  · rename_i eq
    exact absurd (Option.some.inj (List.cons.inj eq).1) notClose
  · rename_i eq
    exact absurd (Option.some.inj (List.cons.inj eq).1) notComma
  · rename_i eq
    cases eq
  · rfl

theorem elements_comma (starts : Starts cs) : elements (fuel + 1) false (some ',' :: cs) = item fuel cs := by
  have comma : skipSpace (some ',' :: cs) = some ',' :: cs := rfl
  have same := starts.skipSpace_eq
  obtain ⟨c, rest, rfl, -, notClose, -⟩ := starts
  unfold elements
  simp only [comma, Bool.false_eq_true, if_false, same]
  split
  · rename_i eq
    exact absurd (Option.some.inj (List.cons.inj eq).1) notClose
  · rename_i eq
    cases eq
  · rfl

theorem item_of_value {d : Draft} (read : value fuel cs = (d, rest)) (sound : d ≠ .broken) {ds : List Draft} {closed : Bool}
    {end_ : List Symbol} (more : elements fuel false rest = (ds, closed, end_)) : item (fuel + 1) cs = (d :: ds, closed, end_) := by
  unfold item
  rw [read]
  split
  · rename_i eq
    exact absurd (congrArg Prod.fst eq) sound
  · rename_i eq
    cases eq
    rw [more]

theorem members_close (fuel : Nat) (first : Bool) (rest : List Symbol) :
    members (fuel + 1) first (some '\x7d' :: rest) = ([], true, rest) := rfl

theorem members_first (starts : Starts cs) : members (fuel + 1) true cs = member fuel cs := by
  have same := starts.skipSpace_eq
  obtain ⟨c, rest, rfl, -, -, notClose, notComma⟩ := starts
  unfold members
  rw [same]
  split
  · rename_i eq
    exact absurd (Option.some.inj (List.cons.inj eq).1) notClose
  · rename_i eq
    exact absurd (Option.some.inj (List.cons.inj eq).1) notComma
  · rfl

theorem members_comma (starts : Starts cs) : members (fuel + 1) false (some ',' :: cs) = member fuel cs := by
  have comma : skipSpace (some ',' :: cs) = some ',' :: cs := rfl
  unfold members
  simp only [comma, Bool.false_eq_true, if_false, starts.skipSpace_eq]

/-- A field is read up to its end: its key, a colon and its value. -/
theorem member_of_value {key : String} {d : Draft} (read : value fuel cs = (d, rest)) (sound : d ≠ .broken)
    {fields : List (Option String × Draft)} {closed : Bool} {end_ : List Symbol} (more : members fuel false rest = (fields, closed, end_)) :
    member (fuel + 1) (sym (quoted key) ++ some ':' :: cs) = ((some key, d) :: fields, closed, end_) := by
  obtain ⟨inner, starts, text⟩ := text_quoted key (some ':' :: cs)
  have colon : skipSpace (some ':' :: cs) = some ':' :: cs := rfl
  rw [starts, member, text]
  simp only [colon]
  rw [read]
  split
  · rename_i eq
    exact absurd (congrArg Prod.fst eq) sound
  · rename_i eq
    cases eq
    rw [more]
    rfl

theorem value_null (fuel : Nat) (rest : List Symbol) : value (fuel + 1) (sym "null".toList ++ rest) = (.null, rest) := rfl

theorem value_bool (fuel : Nat) (b : Bool) (rest : List Symbol) :
    value (fuel + 1) (sym (if b then "true" else "false").toList ++ rest) = (.bool b, rest) := by
  cases b <;> rfl

theorem value_string (fuel : Nat) (s : String) (rest : List Symbol) :
    value (fuel + 1) (sym (quoted s) ++ rest) = (.string (.ok s), rest) := by
  obtain ⟨inner, starts, text⟩ := text_quoted s rest
  have quote : skipSpace (some '"' :: inner) = some '"' :: inner := rfl
  unfold value
  simp only [starts, quote, text]

theorem visible_digitChar : ∀ d < 10, isSpace (Text.Integer.digitChar d) = false ∧
    Text.Integer.digitChar d ∉ ['"', '[', '\x7b', '-', ']', '\x7d', ','] := by decide

theorem value_number (fuel : Nat) (n : Int) (follows : Follows rest) :
    value (fuel + 1) (sym (Number.text (.whole n)).toList ++ rest) = (.number (.ofInt n), rest) := by
  show value (fuel + 1) (sym (Text.Integer.text n).toList ++ rest) = (.number ⟨n < 0, _, none, none⟩, rest)
  unfold Text.Integer.text
  split
  · rename_i negative
    have minus : skipSpace (some '-' :: (sym (Text.Integer.digits n.natAbs) ++ rest)) =
      some '-' :: (sym (Text.Integer.digits n.natAbs) ++ rest) := rfl
    rw [String.toList_ofList, sym, List.map_cons, List.cons_append]
    unfold value
    rw [minus]
    simp only [numeral_digits true n.natAbs follows, negative, decide_true]
  · rename_i positive
    have read := numeral_digits false n.natAbs follows
    obtain ⟨d, ds, eq, -⟩ := Text.Integer.exists_decimals_eq_cons n.natAbs
    obtain ⟨visible, other⟩ := visible_digitChar d (Text.Integer.lt_ten_of_mem_decimals (eq ▸ List.mem_cons_self))
    have starts : sym (Text.Integer.digits n.natAbs) ++ rest = some (Text.Integer.digitChar d) ::
        (sym (ds.map Text.Integer.digitChar) ++ rest) := by
      rw [Text.Integer.digits_eq, eq]
      rfl
    have same : skipSpace (sym (Text.Integer.digits n.natAbs) ++ rest) = sym (Text.Integer.digits n.natAbs) ++ rest := by
      rw [starts]
      exact List.dropWhile_cons_of_neg (by simp [visible])
    -- a digit is none of the characters that other values begin with
    have apart {c : Char} {cs : List Symbol} (c_mem : c ∈ ['"', '[', '\x7b', '-', ']', '\x7d', ',']) :
        sym (Text.Integer.digits n.natAbs) ++ rest ≠ some c :: cs := by
      rw [starts]
      intro eq
      cases eq
      exact other c_mem
    rw [String.toList_ofList]
    unfold value
    rw [same]
    split
    · rename_i eq
      exact absurd eq (apart (by decide))
    · rename_i eq
      exact absurd eq (apart (by decide))
    · rename_i eq
      exact absurd eq (apart (by decide))
    · rename_i eq
      exact absurd eq (apart (by decide))
    · simp only [read, positive, decide_false]

theorem value_array {items : List Draft} {closed : Bool} (read : elements fuel true cs = (items, closed, rest)) :
    value (fuel + 1) (some '[' :: cs) = (.array items closed, rest) := by
  have bracket : skipSpace (some '[' :: cs) = some '[' :: cs := rfl
  unfold value
  simp only [bracket, read]

theorem value_object {fields : List (Option String × Draft)} {closed : Bool} (read : members fuel true cs = (fields, closed, rest)) :
    value (fuel + 1) (some '\x7b' :: cs) = (.object fields closed, rest) := by
  have brace : skipSpace (some '\x7b' :: cs) = some '\x7b' :: cs := rfl
  unfold value
  simp only [brace, read]

end Draft

open Draft

namespace Value

variable {depth : Nat}

theorem draft_ne_broken {v : Value} (readable : v.Readable depth) : v.draft ≠ .broken := by
  cases v with
  | number n =>
    cases n with
    | whole n => exact Draft.noConfusion
    | double x => cases readable
  | _ => exact Draft.noConfusion

theorem starts_quoted (s : String) (rest : List Symbol) : Starts (sym (quoted s) ++ rest) :=
  ⟨'"', _, rfl, by decide⟩

/-- What a value begins with is no blank and closes nothing. -/
theorem starts_chars {v : Value} (readable : v.Readable depth) (rest : List Symbol) : Starts (sym v.chars ++ rest) := by
  cases v with
  | null => exact ⟨'n', _, rfl, by decide⟩
  | bool b => cases b <;> exact ⟨_, _, rfl, by decide⟩
  | string s => exact starts_quoted s rest
  | array items => exact ⟨'[', _, rfl, by decide⟩
  | object fields => exact ⟨'\x7b', _, rfl, by decide⟩
  | number n =>
    cases n with
    | double x => cases readable
    | whole n =>
      show Starts (sym (Text.Integer.text n).toList ++ rest)
      unfold Text.Integer.text
      rw [String.toList_ofList]
      split
      · exact ⟨'-', _, rfl, by decide⟩
      · obtain ⟨d, ds, eq, -⟩ := Text.Integer.exists_decimals_eq_cons n.natAbs
        obtain ⟨visible, other⟩ := visible_digitChar d (Text.Integer.lt_ten_of_mem_decimals (eq ▸ List.mem_cons_self))
        rw [Text.Integer.digits_eq, eq]
        exact ⟨_, _, rfl, visible, by simp_all⟩

theorem starts_charsItems {v : Value} {items : List Value} (readable : ReadableItems depth (v :: items)) (rest : List Symbol) :
    Starts (sym (charsItems (v :: items)) ++ rest) := by
  rw [charsItems, sym, List.map_append, List.append_assoc]
  exact starts_chars readable.1 _

theorem starts_charsFields (f : String × Value) (fields : List (String × Value)) (rest : List Symbol) :
    Starts (sym (charsFields (f :: fields)) ++ rest) := by
  obtain ⟨key, v⟩ := f
  rw [charsFields, List.append_assoc, sym, List.map_append, List.append_assoc]
  exact starts_quoted key _

theorem one_le_length_chars {v : Value} (readable : v.Readable depth) : 1 ≤ v.chars.length := by
  obtain ⟨c, rest, eq, -⟩ := starts_chars readable []
  have length := congrArg List.length eq
  simp only [List.append_nil, List.length_map, List.length_cons] at length
  omega

mutual

/-- A value is read up to its end, and what follows it is left. -/
theorem value_chars {depth : Nat} (fuel : Nat) (rest : List Symbol) : ∀ {v : Value}, v.Readable depth → 3 * v.chars.length ≤ fuel + 1 →
    Follows rest → Draft.value (fuel + 1) (sym v.chars ++ rest) = (v.draft, rest)
  | .null, _, _, _ => value_null fuel rest
  | .bool b, _, _, _ => value_bool fuel b rest
  | .string s, _, _, _ => value_string fuel s rest
  | .number (.double x), readable, _, _ => by cases readable
  | .number (.whole n), _, _, follows => value_number fuel n follows
  | .array [], _, enough, _ => by
    obtain ⟨fuel, rfl⟩ : ∃ m, fuel = m + 1 := Nat.exists_eq_succ_of_ne_zero (by rintro rfl; simp [chars, charsItems] at enough)
    exact value_array (elements_close fuel true rest)
  | .array (v :: items), ⟨_, readable⟩, enough, _ => by
    simp only [chars, List.length_append, List.length_cons, List.length_nil] at enough
    obtain ⟨fuel, rfl⟩ : ∃ m, fuel = m + 2 := ⟨fuel - 2, by omega⟩
    have read := item_charsItems fuel rest readable (by omega)
    have text : sym (Value.array (v :: items)).chars ++ rest = some '[' :: (sym (charsItems (v :: items)) ++ some ']' :: rest) := by
      simp [chars]
    rw [text]
    exact value_array ((elements_first (starts_charsItems readable _)).trans read)
  | .object [], _, enough, _ => by
    obtain ⟨fuel, rfl⟩ : ∃ m, fuel = m + 1 := Nat.exists_eq_succ_of_ne_zero (by rintro rfl; simp [chars, charsFields] at enough)
    exact value_object (members_close fuel true rest)
  | .object (f :: fields), ⟨_, _, readable⟩, enough, _ => by
    simp only [chars, List.length_append, List.length_cons, List.length_nil] at enough
    obtain ⟨fuel, rfl⟩ : ∃ m, fuel = m + 2 := ⟨fuel - 2, by omega⟩
    have read := member_charsFields fuel rest readable (by omega)
    have text : sym (Value.object (f :: fields)).chars ++ rest =
        some '\x7b' :: (sym (charsFields (f :: fields)) ++ some '\x7d' :: rest) := by
      simp [chars]
    rw [text]
    exact value_object ((members_first (starts_charsFields f fields _)).trans read)

/-- The items of an array are read up to its bracket. -/
theorem item_charsItems {depth : Nat} (fuel : Nat) (rest : List Symbol) : ∀ {v : Value} {items : List Value},
    ReadableItems depth (v :: items) → 3 * (charsItems (v :: items)).length ≤ fuel →
      item (fuel + 1) (sym (charsItems (v :: items)) ++ some ']' :: rest) = (draftItems (v :: items), true, rest)
  | v, [], readable, enough => by
    obtain ⟨readable, -⟩ := readable
    simp only [charsItems, List.isEmpty_nil, if_true, List.append_nil] at enough
    have positive := one_le_length_chars readable
    obtain ⟨fuel, rfl⟩ : ∃ m, fuel = m + 1 := ⟨fuel - 1, by omega⟩
    have read := value_chars fuel _ readable (by omega) (.inr ⟨']', rest, rfl, by decide⟩)
    have text : sym (charsItems [v]) ++ some ']' :: rest = sym v.chars ++ some ']' :: rest := by simp [charsItems]
    rw [text]
    exact item_of_value read (draft_ne_broken readable) (elements_close fuel false rest)
  | v, next :: items, readable, enough => by
    obtain ⟨first, later⟩ := readable
    have text : sym (charsItems (v :: next :: items)) ++ some ']' :: rest =
        sym v.chars ++ some ',' :: (sym (charsItems (next :: items)) ++ some ']' :: rest) := by simp [charsItems]
    have length : (charsItems (v :: next :: items)).length = v.chars.length + 1 + (charsItems (next :: items)).length := by
      simp [charsItems]
      omega
    have positive := one_le_length_chars first
    obtain ⟨fuel, rfl⟩ : ∃ m, fuel = m + 2 := ⟨fuel - 2, by omega⟩
    have read := value_chars (fuel + 1) _ first (by omega)
      (.inr ⟨',', sym (charsItems (next :: items)) ++ some ']' :: rest, rfl, by decide⟩)
    have more := item_charsItems fuel rest later (by omega)
    rw [text]
    exact item_of_value read (draft_ne_broken first) ((elements_comma (starts_charsItems later _)).trans more)

theorem member_charsFields {depth : Nat} (fuel : Nat) (rest : List Symbol) : ∀ {f : String × Value} {fields : List (String × Value)},
    ReadableFields depth (f :: fields) → 3 * (charsFields (f :: fields)).length ≤ fuel →
      member (fuel + 1) (sym (charsFields (f :: fields)) ++ some '\x7d' :: rest) = (draftFields (f :: fields), true, rest)
  | (key, v), [], readable, enough => by
    obtain ⟨readable, -⟩ := readable
    have text : sym (charsFields [(key, v)]) ++ some '\x7d' :: rest =
        sym (quoted key) ++ some ':' :: (sym v.chars ++ some '\x7d' :: rest) := by
      simp [charsFields]
    have length : v.chars.length < (charsFields [(key, v)]).length := by
      simp [charsFields]
      omega
    have positive := one_le_length_chars readable
    obtain ⟨fuel, rfl⟩ : ∃ m, fuel = m + 1 := ⟨fuel - 1, by omega⟩
    have read := value_chars fuel _ readable (by omega) (.inr ⟨'\x7d', rest, rfl, by decide⟩)
    rw [text]
    exact member_of_value read (draft_ne_broken readable) (members_close fuel false rest)
  | (key, v), next :: fields, readable, enough => by
    obtain ⟨first, later⟩ := readable
    have text : sym (charsFields ((key, v) :: next :: fields)) ++ some '\x7d' :: rest = sym (quoted key) ++
        some ':' :: (sym v.chars ++ some ',' :: (sym (charsFields (next :: fields)) ++ some '\x7d' :: rest)) := by
      simp [charsFields]
    have length : v.chars.length + 1 + (charsFields (next :: fields)).length ≤ (charsFields ((key, v) :: next :: fields)).length := by
      simp [charsFields]
      omega
    have positive := one_le_length_chars first
    obtain ⟨fuel, rfl⟩ : ∃ m, fuel = m + 2 := ⟨fuel - 2, by omega⟩
    have read := value_chars (fuel + 1) _ first (by omega)
      (.inr ⟨',', sym (charsFields (next :: fields)) ++ some '\x7d' :: rest, rfl, by decide⟩)
    have more := member_charsFields fuel rest later (by omega)
    rw [text]
    exact member_of_value read (draft_ne_broken first) ((members_comma (starts_charsFields next fields _)).trans more)

end

/-- The text of a value is read as the draft of this value. -/
theorem read_print {v : Value} (readable : v.Readable depth) : Draft.read (Text.symbols v.print) = (v.draft, true) := by
  have symbols : Text.symbols v.print = sym v.chars ++ [] := by simp [Text.symbols, print]
  have length : (sym v.chars ++ []).length = v.chars.length := by simp
  rw [symbols, Draft.read, length, value_chars (3 * v.chars.length + 2) _ readable (by omega) (.inl rfl)]
  rfl

mutual

/-- The draft of a value is read as this value. -/
theorem toValue_draft {depth : Nat} : ∀ {v : Value}, v.Readable depth → v.draft.toValue depth = .ok v
  | .null, _ => rfl
  | .bool _, _ => rfl
  | .string _, _ => rfl
  | .number (.double _), readable => by cases readable
  | .number (.whole n), fits => by simp only [draft, toValue, Numeral.number?_ofInt fits]
  | .array items, ⟨shallow, readable⟩ => by
    simp only [draft, toValue, if_pos shallow, toValues_draftItems readable, bind, Except.bind, if_true]
  | .object fields, ⟨shallow, sorted, readable⟩ => by
    have same : Value.ofFields fields = .object fields := congrArg ofTable (Table.ofList_entries ⟨fields, sorted⟩)
    simp only [draft, toValue, if_pos shallow, toFields_draftFields readable, bind, Except.bind, if_true, same]

theorem toValues_draftItems {depth : Nat} : ∀ {items : List Value}, ReadableItems depth items →
    toValues depth (draftItems items) = .ok items
  | [], _ => rfl
  | v :: items, ⟨first, later⟩ => by
    simp only [draftItems, toValues, toValue_draft first, toValues_draftItems later, bind, Except.bind]

theorem toFields_draftFields {depth : Nat} : ∀ {fields : List (String × Value)}, ReadableFields depth fields →
    toFields depth (draftFields fields) = .ok fields
  | [], _ => rfl
  | (key, v) :: fields, ⟨first, later⟩ => by
    simp only [draftFields, toFields, toValue_draft first, toFields_draftFields later, bind, Except.bind]

end

theorem keys_draftFields (fields : List (String × Value)) : (draftFields fields).map (·.1) = fields.map fun f => some f.1 := by
  induction fields with
  | nil => rfl
  | cons f fields ih => exact congrArg (some f.1 :: ·) ih

mutual

/-- It lists no key twice. -/
theorem distinct_draft {depth : Nat} : ∀ {v : Value}, v.Readable depth → v.draft.distinct = true
  | .null, _ => rfl
  | .bool _, _ => rfl
  | .string _, _ => rfl
  | .number (.double _), _ => rfl
  | .number (.whole n), _ => rfl
  | .array items, ⟨_, readable⟩ => distinctItems_draftItems readable
  | .object fields, ⟨_, sorted, readable⟩ => by
    have once : ((draftFields fields).map (·.1)).Nodup := by
      have keys := (Table.nodup_keys ⟨fields, sorted⟩).map fun _ _ => Option.some.inj
      rw [keys_draftFields]
      rwa [Table.keys, List.map_map] at keys
    simp only [draft, Draft.distinct, once, decide_true, Bool.true_and, distinctFields_draftFields readable]

theorem distinctItems_draftItems {depth : Nat} : ∀ {items : List Value}, ReadableItems depth items →
    distinctItems (draftItems items) = true
  | [], _ => rfl
  | v :: items, ⟨first, later⟩ => by
    simp only [draftItems, distinctItems, distinct_draft first, distinctItems_draftItems later, Bool.true_and]

theorem distinctFields_draftFields {depth : Nat} : ∀ {fields : List (String × Value)}, ReadableFields depth fields →
    distinctFields (draftFields fields) = true
  | [], _ => rfl
  | (key, v) :: fields, ⟨first, later⟩ => by
    simp only [draftFields, distinctFields, distinct_draft first, distinctFields_draftFields later, Bool.true_and]

end

/-- **The text of a value writes it.** -/
theorem writes_print {v : Value} (readable : v.Readable 0) : Writes v.print v where
  read := by
    simp only [Json.read, readSymbols, read_print readable, Reader.plain, toValue_draft readable, bind, Except.bind, if_true]
  distinct := by
    rw [read_print readable]
    exact distinct_draft readable

/-! ## What can be read again -/

variable {items : List Value} {fields : List (String × Value)}

theorem readableItems_iff : ReadableItems depth items ↔ ∀ v ∈ items, v.Readable depth := by
  induction items with
  | nil => simp [ReadableItems]
  | cons v items ih => simp only [ReadableItems, ih, List.forall_mem_cons]

theorem readableFields_iff : ReadableFields depth fields ↔ ∀ f ∈ fields, f.2.Readable depth := by
  induction fields with
  | nil => simp [ReadableFields]
  | cons f fields ih => simp only [ReadableFields, ih, List.forall_mem_cons]

theorem readable_int {n : Int} (fits : Text.Width.signed64.holds n = true) : (int n).Readable depth := .inl fits

theorem readable_array (shallow : depth < deepest) (each : ∀ v ∈ items, v.Readable (depth + 1)) : (array items).Readable depth :=
  ⟨shallow, readableItems_iff.2 each⟩

theorem readable_ofFields (shallow : depth < deepest) (each : ∀ f ∈ fields, f.2.Readable (depth + 1)) :
    (ofFields fields).Readable depth :=
  ⟨shallow, Table.sorted _, readableFields_iff.2 fun f listed => each f (Table.mem_of_mem_ofList listed)⟩

end Value

end Proctor.Json
