import Proctor.Json.Draft

/-!
# The texts in a draft

What a reader takes is gone: the rest is no longer than what it began with. So the texts of
the strings in a draft are shorter than the text that the draft was read from, because the
quotes around them are not part of them. Main statement: `length_lt_of_mem_texts`.
-/

set_option autoImplicit false

namespace Proctor.Json.Draft

open Text (Symbol)

mutual

/-- The texts of the strings in a draft, keys apart. -/
def texts : Draft → List String
  | .string (.ok s) => [s]
  | .array items _ => itemTexts items
  | .object fields _ => fieldTexts fields
  | _ => []

def itemTexts : List Draft → List String
  | [] => []
  | d :: rest => texts d ++ itemTexts rest

def fieldTexts : List (Option String × Draft) → List String
  | [] => []
  | (_, d) :: rest => texts d ++ fieldTexts rest

end

theorem length_skipSpace_le (cs : List Symbol) : (skipSpace cs).length ≤ cs.length :=
  (List.dropWhile_sublist _).length_le

theorem length_digits_le : ∀ cs : List Symbol, (digits cs).2.length ≤ cs.length
  | [] => by simp [digits]
  | c :: cs => by
    have := length_digits_le cs
    simp only [digits]
    split
    · simp only [List.length_cons]
      omega
    · exact Nat.le_refl _

theorem length_after?_le {rest : List Symbol} : ∀ {word : List Char} {cs : List Symbol},
    after? word cs = some rest → rest.length ≤ cs.length
  | [], cs, h => by simp [after?] at h; simp [h]
  | w :: word, [], h => by simp [after?] at h
  | w :: word, c :: cs, h => by
    simp only [after?] at h
    split at h
    · have := length_after?_le h
      simp only [List.length_cons]
      omega
    · cases h

theorem length_exponent_le {cs rest : List Symbol} {e : Option (Bool × List Nat)} (h : exponent cs = some (e, rest)) :
    rest.length ≤ cs.length := by
  unfold exponent at h
  grind [length_digits_le]

theorem length_numeral_le {negative : Bool} {cs rest : List Symbol} {n : Numeral}
    (h : numeral negative cs = some (n, rest)) : rest.length ≤ cs.length := by
  unfold numeral at h
  split at h
  · cases h
  · cases h
  · split at h
    · cases h
    · obtain ⟨⟨_, _⟩, _, h⟩ := Option.map_eq_some_iff.1 h
      grind [length_digits_le, → length_exponent_le]
  · obtain ⟨⟨_, _⟩, _, h⟩ := Option.map_eq_some_iff.1 h
    grind [length_digits_le, → length_exponent_le]

theorem length_hexQuad_le {cs rest : List Symbol} {n : Nat} (h : hexQuad cs = some (n, rest)) :
    rest.length ≤ cs.length := by
  unfold hexQuad at h
  split at h
  · simp only [Option.bind_eq_bind, Option.bind_eq_some_iff, Option.some.injEq, Prod.mk.injEq] at h
    obtain ⟨_, _, _, _, _, _, _, _, _, rfl⟩ := h
    simp only [List.length_cons]
    omega
  · cases h

/-- A string has at least a symbol for each of its pieces, and its closing quote. -/
theorem length_pieces_lt {fuel : Nat} : ∀ {cs rest : List Symbol} {ps : List Piece},
    pieces fuel cs = some (ps, rest) → ps.length + rest.length < cs.length := by
  induction fuel with
  | zero => intro cs rest ps h; simp [pieces] at h
  | succ fuel ih =>
    intro cs rest ps h
    unfold pieces at h
    split at h <;> simp only [Option.bind_eq_bind, Option.bind_eq_some_iff, Option.some.injEq, Prod.mk.injEq,
      reduceCtorEq, Option.ite_none_left_eq_some, Prod.exists] at h
    all_goals grind [→ length_hexQuad_le]

theorem length_join_le (ps : List Piece) : ∀ {cs : List Char}, join ps = .ok cs → cs.length ≤ ps.length := by
  have map {c : Char} {rest : List Piece} {cs : List Char} (h : (join rest).map (c :: ·) = .ok cs) :
      ∃ ds, join rest = .ok ds ∧ cs.length = ds.length + 1 := by
    cases hj : join rest with
    | error f => simp [hj, Except.map] at h
    | ok ds => simp only [hj, Except.map, Except.ok.injEq] at h; exact ⟨ds, rfl, by simp [← h]⟩
  fun_induction join ps <;> intro cs h <;> grind

theorem length_text_lt {cs rest : List Symbol} {s : Except Flaw String} (h : text cs = some (s, rest)) :
    rest.length < cs.length ∧ ∀ t, s = .ok t → t.length < cs.length := by
  unfold text at h
  obtain ⟨⟨ps, r⟩, hp, h⟩ := Option.map_eq_some_iff.1 h
  have := length_pieces_lt hp
  simp only [Prod.mk.injEq] at h
  obtain ⟨h1, rfl⟩ := h
  refine ⟨by omega, fun t ht => ?_⟩
  subst ht
  cases hj : join ps with
  | error f => simp [hj, Except.map] at h1
  | ok cs =>
    have := length_join_le ps hj
    simp only [hj, Except.map, Except.ok.injEq] at h1
    subst h1
    simp only [String.length_ofList]
    omega

/-- What was read of some symbols leaves no more than these, and its texts are shorter. -/
def Within (cs : List Symbol) (texts : List String) (rest : List Symbol) : Prop :=
  rest.length ≤ cs.length ∧ ∀ t ∈ texts, t.length < cs.length

/-- What is read of one value, of the items of an array and of the fields of an object stays within the symbols. -/
structure AllWithin (fuel : Nat) : Prop where
  value (cs : List Symbol) : Within cs (value fuel cs).1.texts (value fuel cs).2
  elements (first : Bool) (cs : List Symbol) :
    Within cs (itemTexts (elements fuel first cs).1) (elements fuel first cs).2.2
  item (cs : List Symbol) : Within cs (itemTexts (item fuel cs).1) (item fuel cs).2.2
  members (first : Bool) (cs : List Symbol) :
    Within cs (fieldTexts (members fuel first cs).1) (members fuel first cs).2.2
  member (cs : List Symbol) : Within cs (fieldTexts (member fuel cs).1) (member fuel cs).2.2

theorem allWithin_zero : AllWithin 0 := by
  constructor <;> intros <;>
    simp [value, elements, item, members, member, Within, texts, itemTexts, fieldTexts]

theorem allWithin_succ {fuel : Nat} (h : AllWithin fuel) : AllWithin (fuel + 1) where
  value cs := by
    have := length_skipSpace_le cs
    unfold Draft.value
    split
    · next rest hs =>
      split
      · next s r ht => have := length_text_lt ht; cases s <;> grind [Within, texts]
      · simp [Within, texts]
    · next rest hs => have := h.elements true rest; grind [Within, texts]
    · next rest hs => have := h.members true rest; grind [Within, texts]
    · next rest hs =>
      split
      · next n r hn => have := length_numeral_le hn; grind [Within, texts]
      · simp [Within, texts]
    · split <;> grind [Within, texts, → length_numeral_le, → length_after?_le]
  elements first cs := by
    have := length_skipSpace_le cs
    unfold Draft.elements
    split
    · grind [Within, itemTexts]
    · next rest hs =>
      have := length_skipSpace_le rest
      split
      · simp [Within, itemTexts, texts]
      · split
        · simp [Within, itemTexts]
        · simp [Within, itemTexts]
        · have := h.item (skipSpace rest); grind [Within]
    · simp [Within, itemTexts]
    · split
      · have := h.item (skipSpace cs); grind [Within]
      · simp [Within, itemTexts]
  item cs := by
    have := h.value cs
    unfold Draft.item
    split
    · simp [Within, itemTexts, texts]
    · next d rest _ hv => have := h.elements false rest; grind [Within, itemTexts]
  members first cs := by
    have := length_skipSpace_le cs
    unfold Draft.members
    split
    · grind [Within, fieldTexts]
    · next rest hs =>
      have := length_skipSpace_le rest
      split
      · simp [Within, fieldTexts]
      · have := h.member (skipSpace rest); grind [Within]
    · split
      · have := h.member (skipSpace cs); grind [Within]
      · simp [Within, fieldTexts]
  member cs := by
    unfold Draft.member
    split
    · next rest =>
      split
      · simp [Within, fieldTexts]
      · next key r ht =>
        have := length_text_lt ht
        have := length_skipSpace_le r
        split
        · next tail hs =>
          have := h.value tail
          split
          · simp [Within, fieldTexts, texts]
          · next d r' _ hv => have := h.members false r'; grind [Within, fieldTexts]
        · simp [Within, fieldTexts, texts]
    · simp [Within, fieldTexts]

theorem allWithin : ∀ fuel : Nat, AllWithin fuel
  | 0 => allWithin_zero
  | fuel + 1 => allWithin_succ (allWithin fuel)

/-- The texts in a draft are shorter than the text that it was read from. -/
theorem length_lt_of_mem_texts {cs : List Symbol} {t : String} (h : t ∈ (read cs).1.texts) : t.length < cs.length :=
  ((allWithin (3 * cs.length + 3)).value cs).2 t h

end Proctor.Json.Draft
