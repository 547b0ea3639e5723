import Proctor.Json.Extent
import Proctor.Json.Reading

/-!
# Texts in texts

Where any value may come, it may also come as its text: an object whose first key is
`textKey` has a string for its only field and stands for the value that this string is. The
string is read as a text of its own: its brackets are counted anew, and further texts may
lie in it. An object that has this key in another place is as it stands.

A text in another one is shorter, so that the length of the whole bounds how deep texts lie.
Main statement: `parse?_eq`, by which they are read in the same way as the text around them.
-/

set_option autoImplicit false

namespace Proctor.Json

/-- The key of a text that stands for its value. -/
def textKey : String := "$serde_json::private::RawValue"

namespace Draft

/-- What comes under `textKey` and the other fields, if this key is the first one. -/
def embedded? : List (Option String × Draft) → Option (Draft × List (Option String × Draft))
  | [] => none
  | (key, d) :: rest => if key = some textKey then some (d, rest) else none

/-- The value that a string is; `inner` reads its text. -/
def innerValue (inner : String → Option Value) : Draft → Except Fault Value
  | .string (.ok text) => (inner text).elim (.error .mismatch) .ok
  | d => .error d.wrongKind

mutual

/-- The draft as a value, `depth` brackets deep; `inner` reads the texts that stand for values. -/
def resolve (inner : String → Option Value) (depth : Nat) : Draft → Except Fault Value
  | .array items closed =>
    if depth < deepest then do
      let vs ← resolveItems inner (depth + 1) items
      if closed then .ok (.array vs) else .error .malformed
    else .error .malformed
  | .object fields closed =>
    if depth < deepest then
      match embedded? fields with
      | some (d, rest) => do
        let v ← innerValue inner d
        if rest.isEmpty ∧ closed then .ok v else .error .malformed
      | none => do
        let vs ← resolveFields inner (depth + 1) fields
        if closed then .ok (.ofFields vs) else .error .malformed
    else .error .malformed
  | d => d.toValue depth

def resolveItems (inner : String → Option Value) (depth : Nat) : List Draft → Except Fault (List Value)
  | [] => .ok []
  | d :: rest => do
    let v ← resolve inner depth d
    let vs ← resolveItems inner depth rest
    .ok (v :: vs)

def resolveFields (inner : String → Option Value) (depth : Nat) :
    List (Option String × Draft) → Except Fault (List (String × Value))
  | [] => .ok []
  | (none, _) :: _ => .error .malformed
  | (some key, d) :: rest => do
    let v ← resolve inner depth d
    let vs ← resolveFields inner depth rest
    .ok ((key, v) :: vs)

end

end Draft

/-- The value of a text in which texts lie less than `fuel` deep. -/
def parseWithin : Nat → String → Option Value
  | 0, _ => none
  | fuel + 1, text => (read (fun depth d => d.resolve (parseWithin fuel) depth) text).toOption

/-- The value of a JSON text. -/
def parse? (text : String) : Option Value := parseWithin text.length text

/-- Any value; a text may stand for it. -/
def Reader.any : Reader Value := fun depth d => d.resolve parse? depth

namespace Draft

variable {f g : String → Option Value}

theorem innerValue_congr {d : Draft} (h : ∀ t ∈ d.texts, f t = g t) : innerValue f d = innerValue g d := by
  unfold innerValue
  split
  · next t => rw [h t (by simp [texts])]
  · rfl

theorem mem_fieldTexts_of_embedded? {fields rest : List (Option String × Draft)} {d : Draft}
    (h : embedded? fields = some (d, rest)) : ∀ t ∈ d.texts, t ∈ fieldTexts fields := by
  unfold embedded? at h
  grind [fieldTexts]

mutual

/-- Of a draft only its own texts are read. -/
theorem resolve_congr {depth : Nat} : ∀ {d : Draft}, (∀ t ∈ d.texts, f t = g t) → d.resolve f depth = d.resolve g depth
  | .array items closed, h => by simp only [resolve, resolveItems_congr h]
  | .object fields closed, h => by
    simp only [resolve, resolveFields_congr h]
    split
    · split
      · next d rest he => rw [innerValue_congr fun t ht => h t (mem_fieldTexts_of_embedded? he t ht)]
      · rfl
    · rfl
  | .null, _ => rfl
  | .bool _, _ => rfl
  | .number _, _ => rfl
  | .string _, _ => rfl
  | .broken, _ => rfl

theorem resolveItems_congr {depth : Nat} : ∀ {ds : List Draft}, (∀ t ∈ itemTexts ds, f t = g t) →
    resolveItems f depth ds = resolveItems g depth ds
  | [], _ => rfl
  | d :: rest, h => by
    simp only [itemTexts, List.mem_append] at h
    simp only [resolveItems, resolve_congr fun t ht => h t (.inl ht), resolveItems_congr fun t ht => h t (.inr ht)]

theorem resolveFields_congr {depth : Nat} : ∀ {fields : List (Option String × Draft)},
    (∀ t ∈ fieldTexts fields, f t = g t) → resolveFields f depth fields = resolveFields g depth fields
  | [], _ => rfl
  | (none, _) :: _, _ => rfl
  | (some _, d) :: rest, h => by
    simp only [fieldTexts, List.mem_append] at h
    simp only [resolveFields, resolve_congr fun t ht => h t (.inl ht), resolveFields_congr fun t ht => h t (.inr ht)]

end

end Draft

/-- Of a text only shorter ones are read. -/
theorem read_resolve_congr {f g : String → Option Value} {text : String}
    (h : ∀ t : String, t.length < text.length → f t = g t) :
    read (fun depth d => d.resolve f depth) text = read (fun depth d => d.resolve g depth) text := by
  have length : (Text.symbols text).length = text.length := by simp [Text.symbols, String.length_toList]
  have same : (Draft.read (Text.symbols text)).1.resolve f 0 = (Draft.read (Text.symbols text)).1.resolve g 0 :=
    Draft.resolve_congr fun t ht => h t (length ▸ Draft.length_lt_of_mem_texts ht)
  simp only [read, readSymbols, same]

theorem parseWithin_of_length_eq_zero {n : Nat} {text : String} (h : text.length = 0) : parseWithin n text = none := by
  obtain rfl : text = "" := by simpa using h
  cases n <;> rfl

/-- Texts lie less deep in a text than it is long. -/
theorem parseWithin_eq {n : Nat} : ∀ {m : Nat} {text : String}, text.length ≤ n → text.length ≤ m →
    parseWithin n text = parseWithin m text := by
  induction n with
  | zero =>
    intro m text h _
    rw [parseWithin_of_length_eq_zero (by omega), parseWithin_of_length_eq_zero (by omega)]
  | succ n ih =>
    intro m text hn hm
    cases m with
    | zero => rw [parseWithin_of_length_eq_zero (by omega), parseWithin_of_length_eq_zero (by omega)]
    | succ m =>
      have inner (t : String) (ht : t.length < text.length) : parseWithin n t = parseWithin m t :=
        ih (by omega) (by omega)
      simp only [parseWithin, read_resolve_congr inner]

/-- Texts that stand for values are read in the same way as the text around them. -/
theorem parse?_eq (text : String) : parse? text = (read Reader.any text).toOption := by
  have inner (t : String) (ht : t.length < text.length) : parseWithin text.length t = parse? t :=
    parseWithin_eq (by omega) (Nat.le_refl _)
  rw [parse?, parseWithin_eq (Nat.le_refl _) (Nat.le_succ _), parseWithin, read_resolve_congr inner]
  rfl

example : parse? ("\x7b\"" ++ textKey ++ "\":\"[null]\"\x7d") = some (.array [.null]) := by cbv
example : parse? ("\x7b\"" ++ textKey ++ "\":\"[null]\",\"a\":1\x7d") = none := by cbv

end Proctor.Json
