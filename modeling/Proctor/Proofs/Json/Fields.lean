import Mathlib.Data.List.Forall2
import Mathlib.Data.List.Nodup
import Proctor.Proofs.Json.Ordered
import Proctor.Proofs.Table
import Proctor.Wire.Buffered

/-!
# What is read of a value

A draft stands for a value if it can be read as this value and lists no key twice. What a reader makes of such a draft hangs on the value
alone: not on the order of fields, nor on how numbers and strings are written. `Reader.Reads r f a` says that `r` reads `a` wherever
`f a` stands. A record is read if each of its fields is (`Record.exists_read`), and refused for its shape if one of them is and the
others are read (`Record.read_mismatch`).
-/

set_option autoImplicit false

namespace Proctor.Json

/-- Objects with the same fields have the same table. -/
theorem Value.ofTable_inj {t u : Table String Value} (eq : ofTable t = ofTable u) : t = u := by
  obtain ⟨entries, sorted⟩ := t
  obtain ⟨entries', sorted'⟩ := u
  obtain rfl : entries = entries' := Value.object.inj eq
  rfl

/-- What is paired has a partner. -/
theorem exists_of_mem_of_forall₂ {α β : Type} {R : α → β → Prop} {as : List α} {bs : List β} (pairs : List.Forall₂ R as bs) {a : α}
    (listed : a ∈ as) : ∃ b ∈ bs, R a b := by
  induction pairs with
  | nil => cases listed
  | cons pair _ ih =>
    obtain rfl | listed := List.mem_cons.1 listed
    · exact ⟨_, List.mem_cons_self, pair⟩
    · obtain ⟨b, listed, pair⟩ := ih listed
      exact ⟨b, List.mem_cons_of_mem _ listed, pair⟩

/-- A key that comes once picks its entry. -/
theorem filter_key_eq {ν : Type} {entries : List (String × ν)} (once : (entries.map (·.1)).Nodup) {key : String} {v : ν}
    (listed : (key, v) ∈ entries) : entries.filter (fun e => e.1 == key) = [(key, v)] := by
  induction entries with
  | nil => cases listed
  | cons e entries ih =>
    obtain ⟨new, once⟩ := List.nodup_cons.1 once
    obtain rfl | listed := List.mem_cons.1 listed
    · have none : entries.filter (fun e => e.1 == key) = [] := by
        refine List.filter_eq_nil_iff.2 fun e listed same => new (List.mem_map.2 ⟨e, listed, ?_⟩)
        simpa using same
      rw [List.filter_cons_of_pos (by simp), none]
    · have other : ¬(e.1 == key) = true := by
        simp only [beq_iff_eq]
        rintro rfl
        exact new (List.mem_map.2 ⟨_, listed, rfl⟩)
      rw [List.filter_cons, if_neg other, ih once listed]

namespace Draft

mutual

/-- No object in the draft lists a key twice. -/
def distinct : Draft → Bool
  | .array items _ => distinctItems items
  | .object fields _ => decide (fields.map (·.1)).Nodup && distinctFields fields
  | _ => true

def distinctItems : List Draft → Bool
  | [] => true
  | d :: rest => distinct d && distinctItems rest

def distinctFields : List (Option String × Draft) → Bool
  | [] => true
  | (_, d) :: rest => distinct d && distinctFields rest

end

/-- The draft is read as this value, `depth` brackets deep, and lists no key twice. -/
structure StandsFor (d : Draft) (depth : Nat) (v : Value) : Prop where
  value : d.toValue depth = .ok v
  distinct : d.distinct = true

/-- The fields of an object with their keys. -/
def keyed (entries : List (String × Draft)) : List (Option String × Draft) := entries.map fun e => (some e.1, e.2)

/-- What a draft that stands for a value looks like. -/
inductive Shape (depth : Nat) : Draft → Value → Prop where
  | null : Shape depth .null .null
  | bool (b : Bool) : Shape depth (.bool b) (.bool b)
  | number {n : Numeral} {k : Number} (eq : n.number? = some k) : Shape depth (.number n) (.number k)
  | string (s : String) : Shape depth (.string (.ok s)) (.string s)
  | array {ds : List Draft} {vs : List Value} (shallow : depth < deepest) (items : List.Forall₂ (·.StandsFor (depth + 1) ·) ds vs) :
      Shape depth (.array ds true) (.array vs)
  | object {entries : List (String × Draft)} {fs : List (String × Value)} {v : Value} (shallow : depth < deepest)
      (distinct : (entries.map (·.1)).Nodup) (fields : List.Forall₂ (fun e f => e.1 = f.1 ∧ e.2.StandsFor (depth + 1) f.2) entries fs)
      (eq : v = .ofFields fs) : Shape depth (.object (keyed entries) true) v

variable {d : Draft} {depth : Nat} {v : Value}

theorem forall₂_of_toValues {ds : List Draft} {vs : List Value} (eq : toValues depth ds = .ok vs) (distinct : distinctItems ds = true) :
    List.Forall₂ (·.StandsFor depth ·) ds vs := by
  induction ds generalizing vs with
  | nil =>
    cases eq
    exact .nil
  | cons d ds ih =>
    obtain ⟨first, later⟩ := Bool.and_eq_true_iff.1 distinct
    obtain ⟨v, value, eq⟩ := exists_of_bind_eq_ok eq
    obtain ⟨rest, values, eq⟩ := exists_of_bind_eq_ok eq
    cases eq
    exact .cons ⟨value, first⟩ (ih values later)

/-- The fields that are read have their keys. -/
theorem exists_of_toFields {fields : List (Option String × Draft)} {fs : List (String × Value)} (eq : toFields depth fields = .ok fs)
    (distinct : distinctFields fields = true) :
    ∃ entries, fields = keyed entries ∧ List.Forall₂ (fun e f => e.1 = f.1 ∧ e.2.StandsFor depth f.2) entries fs := by
  induction fields generalizing fs with
  | nil =>
    cases eq
    exact ⟨[], rfl, .nil⟩
  | cons field fields ih =>
    obtain ⟨key?, d⟩ := field
    obtain ⟨first, later⟩ := Bool.and_eq_true_iff.1 distinct
    cases key? with
    | none => cases eq
    | some key =>
      obtain ⟨v, value, eq⟩ := exists_of_bind_eq_ok eq
      obtain ⟨rest, values, eq⟩ := exists_of_bind_eq_ok eq
      cases eq
      obtain ⟨entries, rfl, paired⟩ := ih values later
      exact ⟨(key, d) :: entries, rfl, .cons ⟨rfl, value, first⟩ paired⟩

/-- **Whatever stands for a value looks like it.** -/
theorem StandsFor.shape (stands : d.StandsFor depth v) : Shape depth d v := by
  obtain ⟨value, distinct⟩ := stands
  cases d with
  | null =>
    cases value
    exact .null
  | bool b =>
    cases value
    exact .bool b
  | number n =>
    rw [toValue] at value
    split at value
    · rename_i number
      cases value
      exact .number number
    · cases value
  | string text =>
    cases text <;> cases value
    exact .string _
  | array items closed =>
    rw [toValue] at value
    obtain ⟨shallow, rfl, vs, values, rfl⟩ := exists_of_enclosed value
    exact .array shallow (forall₂_of_toValues values distinct)
  | object fields closed =>
    rw [toValue] at value
    obtain ⟨shallow, rfl, fs, values, eq⟩ := exists_of_enclosed value
    obtain ⟨once, within⟩ := Bool.and_eq_true_iff.1 distinct
    obtain ⟨entries, rfl, paired⟩ := exists_of_toFields values within
    refine .object shallow ?_ paired eq
    have keys : ((keyed entries).map (·.1)) = (entries.map (·.1)).map some := by simp [keyed]
    rw [keys] at once
    exact (of_decide_eq_true once).of_map
  | broken => cases value

namespace StandsFor

theorem eq_null (stands : d.StandsFor depth .null) : d = .null := by
  cases stands.shape with
  | null => rfl
  | object _ _ _ eq => cases eq

theorem eq_bool {b : Bool} (stands : d.StandsFor depth (.bool b)) : d = .bool b := by
  cases stands.shape with
  | bool => rfl
  | object _ _ _ eq => cases eq

theorem exists_number {k : Number} (stands : d.StandsFor depth (.number k)) : ∃ n, d = .number n ∧ n.number? = some k := by
  cases stands.shape with
  | number eq => exact ⟨_, rfl, eq⟩
  | object _ _ _ eq => cases eq

theorem eq_string {s : String} (stands : d.StandsFor depth (.string s)) : d = .string (.ok s) := by
  cases stands.shape with
  | string => rfl
  | object _ _ _ eq => cases eq

theorem exists_array {vs : List Value} (stands : d.StandsFor depth (.array vs)) :
    ∃ ds, d = .array ds true ∧ depth < deepest ∧ List.Forall₂ (·.StandsFor (depth + 1) ·) ds vs := by
  cases stands.shape with
  | array shallow items => exact ⟨_, rfl, shallow, items⟩
  | object _ _ _ eq => cases eq

theorem exists_object {fs : List (String × Value)} (stands : d.StandsFor depth (.ofFields fs)) :
    ∃ entries gs, d = .object (keyed entries) true ∧ depth < deepest ∧ (entries.map (·.1)).Nodup ∧
      List.Forall₂ (fun e f => e.1 = f.1 ∧ e.2.StandsFor (depth + 1) f.2) entries gs ∧ Table.ofList fs = Table.ofList gs := by
  generalize same : Value.ofFields fs = v at stands
  cases stands.shape with
  | object shallow distinct fields eq => exact ⟨_, _, rfl, shallow, distinct, fields, Value.ofTable_inj (same.trans eq)⟩
  | _ => cases same

end StandsFor

/-- The entries stand for these fields, in any order. -/
structure Lists (entries : List (String × Draft)) (depth : Nat) (fs : List (String × Value)) : Prop where
  distinct : (entries.map (·.1)).Nodup
  said : ∀ e ∈ entries, ∃ v, (e.1, v) ∈ fs ∧ e.2.StandsFor depth v
  listed : ∀ f ∈ fs, ∃ d, (f.1, d) ∈ entries ∧ d.StandsFor depth f.2

/-- The fields of an object are listed in any order. -/
theorem StandsFor.exists_lists {fs : List (String × Value)} (once : (fs.map (·.1)).Nodup) (stands : d.StandsFor depth (.ofFields fs)) :
    ∃ entries, d = .object (keyed entries) true ∧ depth < deepest ∧ Lists entries (depth + 1) fs := by
  obtain ⟨entries, gs, rfl, shallow, distinct, fields, same⟩ := stands.exists_object
  have keys : entries.map (·.1) = gs.map (·.1) := by
    rw [← List.forall₂_eq_eq_eq, List.forall₂_map_left_iff, List.forall₂_map_right_iff]
    exact fields.imp fun _ _ pair => pair.1
  have mem (f : String × Value) : f ∈ gs ↔ f ∈ fs := by
    rw [← Table.get?_ofList once, ← Table.get?_ofList (keys ▸ distinct), same]
  refine ⟨entries, rfl, shallow, distinct, ?_, ?_⟩
  · intro e listed
    obtain ⟨⟨key, v⟩, listed, eq, stands⟩ := exists_of_mem_of_forall₂ fields listed
    exact ⟨v, (mem _).1 (eq ▸ listed), stands⟩
  · intro f listed
    obtain ⟨⟨key, d⟩, listed, eq, stands⟩ := exists_of_mem_of_forall₂ fields.flip ((mem f).2 listed)
    exact ⟨d, eq ▸ listed, stands⟩

/-- Fields are chosen by their keys. -/
theorem Lists.filter {entries : List (String × Draft)} {fs : List (String × Value)} (p : String → Bool)
    (lists : Lists entries depth fs) :
    Lists (entries.filter fun e => p e.1) depth (fs.filter fun f => p f.1) := by
  refine ⟨lists.distinct.sublist (List.filter_sublist.map _), ?_, ?_⟩
  · intro e listed
    obtain ⟨listed, passes⟩ := List.mem_filter.1 listed
    obtain ⟨v, said, stands⟩ := lists.said e listed
    exact ⟨v, List.mem_filter.2 ⟨said, passes⟩, stands⟩
  · intro f listed
    obtain ⟨listed, passes⟩ := List.mem_filter.1 listed
    obtain ⟨d, entry, stands⟩ := lists.listed f listed
    exact ⟨d, List.mem_filter.2 ⟨entry, passes⟩, stands⟩

end Draft

/-- The text is a whole JSON text of this value, and no object in it lists a key twice. -/
structure Writes (text : String) (v : Value) : Prop where
  read : Json.read Reader.plain text = .ok v
  distinct : (Draft.read (Text.symbols text)).1.distinct = true

example : Writes " \"\\u0041\" " (.string "A") := ⟨rfl, rfl⟩

/-- What is read of a text that writes a value is what is read of any draft that stands for it. -/
theorem Writes.read_eq {α : Type} {r : Reader α} {result : Except Fault α} {text : String} {v : Value} (writes : Writes text v)
    (eq : ∀ ⦃d : Draft⦄, d.StandsFor 0 v → r 0 d = result) : Json.read r text = result := by
  obtain ⟨read, distinct⟩ := writes
  unfold Json.read readSymbols at *
  generalize Draft.read (Text.symbols text) = parsed at *
  obtain ⟨d, complete⟩ := parsed
  obtain ⟨_, value, read⟩ := exists_of_bind_eq_ok read
  split at read
  · rename_i whole
    cases read
    simp only [eq ⟨value, distinct⟩, whole, if_true]
    cases result <;> rfl
  · cases read

namespace Reader

open Draft

variable {α : Type}

/-- The reader reads `a` wherever `f a` stands. -/
def Reads (r : Reader α) (f : α → Value) (a : α) : Prop := ∀ ⦃depth : Nat⦄ ⦃d : Draft⦄, d.StandsFor depth (f a) → r depth d = .ok a

theorem reads_integer {w : Text.Width} {n : Int} (fits : w.holds n = true) : (integer w).Reads .int n := by
  intro depth d stands
  obtain ⟨m, rfl, eq⟩ := stands.exists_number
  simp only [integer, eq, fits, if_true]

theorem reads_bool (b : Bool) : bool.Reads .bool b := by
  intro depth d stands
  rw [stands.eq_bool]
  rfl

theorem reads_string (s : String) : string.Reads .string s := by
  intro depth d stands
  rw [stands.eq_string]
  rfl

theorem reads_text {f : String → Option α} {name : α → String} {a : α} (eq : f (name a) = some a) :
    (text f).Reads (fun a => .string (name a)) a := by
  intro depth d stands
  rw [stands.eq_string]
  simp only [text, string, bind, Except.bind, eq]

theorem reads_optional {r : Reader α} {f : α → Value} {a? : Option α} (reads : ∀ a, a? = some a → r.Reads f a)
    (proper : ∀ a, f a ≠ .null) : (optional r).Reads (Value.orNull f) a? := by
  intro depth d stands
  cases a? with
  | none =>
    rw [stands.eq_null]
    rfl
  | some a =>
    have notNull : d ≠ .null := by
      rintro rfl
      exact proper a (Except.ok.inj stands.value).symm
    have read : optional r depth d = (r depth d).map some := by
      unfold optional
      split
      · exact absurd rfl notNull
      · rfl
    rw [read, reads a rfl stands]
    rfl

/-- The items are read one by one. -/
theorem reads_list {r : Reader α} {f : α → Value} {as : List α} (reads : ∀ a ∈ as, r.Reads f a) :
    (list r).Reads (fun as => .array (as.map f)) as := by
  intro depth d stands
  obtain ⟨ds, rfl, shallow, items⟩ := stands.exists_array
  have each : ds.mapM (r (depth + 1)) = .ok as := by
    clear stands
    rw [List.forall₂_map_right_iff] at items
    induction items with
    | nil => rfl
    | cons stands _ ih =>
      obtain ⟨first, later⟩ := List.forall_mem_cons.1 reads
      rw [List.mapM_cons, first stands, ih later]
      rfl
  simp only [list, if_pos shallow, each]
  rfl

end Reader

open Draft

namespace Field

variable {f : Field} {depth : Nat}

/-- The check of the field lets everything through that stands for this value. -/
def Passes (f : Field) (v : Value) : Prop := ∀ ⦃depth : Nat⦄ ⦃d : Draft⦄, d.StandsFor depth v → f.check depth d = .ok ()

/-- It refuses the shape of everything that stands for this value. -/
def Fails (f : Field) (v : Value) : Prop := ∀ ⦃depth : Nat⦄ ⦃d : Draft⦄, d.StandsFor depth v → f.check depth d = .error .mismatch

variable {α : Type} {r : Reader α} {e : α → Value} {name : String}

theorem passes_needed {a : α} (reads : r.Reads e a) : (needed name r).Passes (e a) := by
  intro depth d stands
  simp only [needed, reads stands]
  rfl

theorem passes_spare {a? : Option α} (reads : (Reader.optional r).Reads (Value.orNull e) a?) :
    (spare name r).Passes (Value.orNull e a?) := by
  intro depth d stands
  simp only [spare, reads stands]
  rfl

theorem fails_needed {v : Value} (refuses : ∀ ⦃depth d⦄, d.StandsFor depth v → r depth d = .error .mismatch) :
    (needed name r).Fails v := by
  intro depth d stands
  simp only [needed, refuses stands]
  rfl

end Field

namespace Record

variable {fields : List Field} {depth : Nat} {other : Draft → Except Fault Unit} {entries seen : List (String × Draft)}
  {fs : List (String × Value)}

/-- The entry is one of the fields. -/
def known (fields : List Field) (key : String) : Bool := fields.any (·.name == key)

/-- What the walk does with an entry that comes for the first time. -/
def judge (fields : List Field) (depth : Nat) (other : Draft → Except Fault Unit) (e : String × Draft) : Except Fault Unit :=
  match fields.find? (·.name == e.1) with
  | some f => f.check depth e.2
  | none => other e.2

theorem known_iff {key : String} : known fields key = true ↔ ∃ f, fields.find? (·.name == key) = some f := by
  rw [← Option.isSome_iff_exists, List.find?_isSome, known, List.any_eq_true]

/-- One step of the walk, at an entry that has not been seen. -/
theorem walk_cons {e : String × Draft} (unseen : ∀ s ∈ seen, s.1 ≠ e.1) : walk fields depth other seen (keyed (e :: entries)) =
    (judge fields depth other e >>= fun _ => walk fields depth other (if known fields e.1 then e :: seen else seen) (keyed entries)) := by
  obtain ⟨key, d⟩ := e
  have notSeen : seen.any (·.1 == key) = false := by
    rw [List.any_eq_false]
    intro s listed
    simpa using unseen s listed
  simp only [keyed, List.map_cons, walk, judge]
  cases found : fields.find? (·.name == key) with
  | none =>
    have unknown : known fields key = false := by
      rw [Bool.eq_false_iff, Ne, known_iff]
      rintro ⟨f, some⟩
      cases found.symm.trans some
    simp only [unknown, Bool.false_eq_true, if_false]
  | some f =>
    have isKnown : known fields key = true := known_iff.2 ⟨f, found⟩
    simp only [notSeen, isKnown, Bool.false_eq_true, if_false, if_true]

/-- Entries that have not been seen are still unseen after the first of them, if none comes twice. -/
theorem unseen_of_cons {e : String × Draft} (once : ((e :: entries).map (·.1)).Nodup)
    (fresh : ∀ e' ∈ e :: entries, ∀ s ∈ seen, s.1 ≠ e'.1) :
    ∀ e' ∈ entries, ∀ s ∈ if known fields e.1 then e :: seen else seen, s.1 ≠ e'.1 := by
  intro e' listed s seen eq
  obtain ⟨new, -⟩ := List.nodup_cons.1 once
  have earlier (seen) : False := fresh e' (List.mem_cons_of_mem e listed) s seen eq
  split at seen
  · obtain rfl | seen := List.mem_cons.1 seen
    · exact new (List.mem_map.2 ⟨e', listed, eq.symm⟩)
    · exact earlier seen
  · exact earlier seen

/-- Entries that are let through are collected, the last one first. -/
theorem walk_of_passes (once : (entries.map (·.1)).Nodup) (fresh : ∀ e ∈ entries, ∀ s ∈ seen, s.1 ≠ e.1)
    (passes : ∀ e ∈ entries, judge fields depth other e = .ok ()) :
    walk fields depth other seen (keyed entries) = .ok ((entries.filter fun e => known fields e.1).reverse ++ seen) := by
  induction entries generalizing seen with
  | nil => rfl
  | cons e entries ih =>
    obtain ⟨first, later⟩ := List.forall_mem_cons.1 passes
    rw [walk_cons (fresh e List.mem_cons_self), first]
    refine (ih (List.nodup_cons.1 once).2 (unseen_of_cons once fresh) later).trans ?_
    rw [List.filter_cons]
    split <;> simp

/-- If some entries are refused for their shape and the others are let through, the walk fails for a shape. -/
theorem walk_of_fails (once : (entries.map (·.1)).Nodup) (fresh : ∀ e ∈ entries, ∀ s ∈ seen, s.1 ≠ e.1)
    (each : ∀ e ∈ entries, judge fields depth other e = .ok () ∨ judge fields depth other e = .error .mismatch)
    (fails : ∃ e ∈ entries, judge fields depth other e = .error .mismatch) :
    walk fields depth other seen (keyed entries) = .error .mismatch := by
  induction entries generalizing seen with
  | nil =>
    obtain ⟨e, listed, -⟩ := fails
    cases listed
  | cons e entries ih =>
    obtain ⟨first, later⟩ := List.forall_mem_cons.1 each
    rw [walk_cons (fresh e List.mem_cons_self)]
    obtain ok | error := first
    -- an entry that is let through does not stop the walk, so one that is refused is still to come
    · rw [ok]
      refine ih (List.nodup_cons.1 once).2 (unseen_of_cons once fresh) later ?_
      obtain ⟨e', listed, error⟩ := fails
      obtain rfl | listed := List.mem_cons.1 listed
      · cases ok.symm.trans error
      · exact ⟨e', listed, error⟩
    · rw [error]
      rfl

/-- The record holds what stands for those of the fields `fs` that it has. -/
def Holds (r : Record) (fields : List Field) (fs : List (String × Value)) : Prop :=
  ∀ {name : String} {v : Value}, (name, v) ∈ fs → known fields name = true → ∃ d, r.draft? name = some d ∧ d.StandsFor r.depth v

/-- Each of the fields has a value in `fs`, and `p` holds of it. -/
def Each (p : Field → Value → Prop) (fields : List Field) (fs : List (String × Value)) : Prop :=
  ∀ f ∈ fields, ∃ v, (f.name, v) ∈ fs ∧ p f v

theorem each_nil {p : Field → Value → Prop} : Each p [] fs := fun _ listed => by cases listed

theorem each_cons {p : Field → Value → Prop} {f : Field} {v : Value} (said : (f.name, v) ∈ fs) (holds : p f v) (rest : Each p fields fs) :
    Each p (f :: fields) fs :=
  List.forall_mem_cons.2 ⟨⟨v, said, holds⟩, rest⟩

section Walk

variable (other) (once : (fs.map (·.1)).Nodup) (lists : Lists entries depth fs)
  (others : ∀ f ∈ fs, known fields f.1 = false → ∀ d : Draft, d.StandsFor depth f.2 → other d = .ok ())

include once lists others

/-- An entry is judged by the field of its name. -/
theorem judge_of_lists {p : Except Fault Unit → Prop} (ok : p (.ok ()))
    (checks : ∀ f ∈ fields, ∃ v, (f.name, v) ∈ fs ∧ ∀ d : Draft, d.StandsFor depth v → p (f.check depth d))
    {e : String × Draft} (listed : e ∈ entries) : p (judge fields depth other e) := by
  obtain ⟨v, said, stands⟩ := lists.said e listed
  unfold judge
  cases found : fields.find? (·.name == e.1) with
  | none =>
    have unknown : known fields e.1 = false := by
      rw [Bool.eq_false_iff, Ne, known_iff]
      rintro ⟨f, some⟩
      cases found.symm.trans some
    simp only [others _ said unknown e.2 stands]
    exact ok
  | some f =>
    obtain ⟨v', said', check⟩ := checks f (List.mem_of_find?_eq_some found)
    have name : f.name = e.1 := by simpa using List.find?_some found
    rw [name] at said'
    obtain rfl : v = v' := congrArg Prod.snd (List.inj_on_of_nodup_map once said said' rfl)
    exact check e.2 stands

/-- Fields that are all let through are collected, and the record holds them. -/
theorem exists_walk (checks : Each Field.Passes fields fs) : ∃ seen,
    walk fields depth other [] (keyed entries) = .ok seen ∧ complete fields seen = .ok () ∧ Holds ⟨depth, seen⟩ fields fs := by
  have passes : ∀ e ∈ entries, judge fields depth other e = .ok () := fun e listed =>
    judge_of_lists (p := fun result => result = .ok ()) other once lists others rfl
      (fun f listed => (checks f listed).imp fun v pass => ⟨pass.1, fun d stands => pass.2 stands⟩) listed
  have walked : walk fields depth other [] (keyed entries) = _ :=
    walk_of_passes lists.distinct (fun _ _ _ listed => by cases listed) passes
  generalize seen_eq : (entries.filter fun e => known fields e.1).reverse ++ [] = seen at walked
  have mem (e : String × Draft) : e ∈ seen ↔ e ∈ entries ∧ known fields e.1 = true := by
    rw [← seen_eq, List.append_nil, List.mem_reverse, List.mem_filter]
  refine ⟨seen, walked, ?_, ?_⟩
  · have present : ∀ f ∈ fields, seen.any (·.1 == f.name) = true := by
      intro f listed
      obtain ⟨v, said, -⟩ := checks f listed
      obtain ⟨d, entry, -⟩ := lists.listed _ said
      have isKnown : known fields f.name = true := List.any_eq_true.2 ⟨f, listed, beq_self_eq_true _⟩
      exact List.any_eq_true.2 ⟨_, (mem (f.name, d)).2 ⟨entry, isKnown⟩, beq_self_eq_true _⟩
    refine if_pos (List.all_eq_true.2 fun f listed => ?_)
    rw [present f listed, Bool.or_true]
  · intro name v said isKnown
    obtain ⟨d, entry, stands⟩ := lists.listed _ said
    refine ⟨d, ?_, stands⟩
    unfold draft?
    cases found : seen.find? (·.1 == name) with
    | none => exact absurd (beq_self_eq_true name) (List.find?_eq_none.1 found _ ((mem (name, d)).2 ⟨entry, isKnown⟩))
    | some e =>
      have same : e.1 = name := by simpa using List.find?_some found
      have listed := ((mem e).1 (List.mem_of_find?_eq_some found)).1
      rw [List.inj_on_of_nodup_map lists.distinct listed entry same]
      rfl

/-- If some field is refused for its shape and the others are let through, the record is refused for its shape. -/
theorem walk_mismatch (checks : Each (fun f v => f.Passes v ∨ f.Fails v) fields fs) {f : Field} {v : Value}
    (first : fields.find? (·.name == f.name) = some f) (said : (f.name, v) ∈ fs) (fails : f.Fails v) :
    walk fields depth other [] (keyed entries) = .error .mismatch := by
  refine walk_of_fails lists.distinct (fun _ _ _ listed => by cases listed) (fun e listed => ?_) ?_
  · refine judge_of_lists (p := fun result => result = .ok () ∨ result = .error .mismatch) other once lists others (.inl rfl) ?_ listed
    intro f listed
    obtain ⟨v, said, passes | fails⟩ := checks f listed
    · exact ⟨v, said, fun d stands => .inl (passes stands)⟩
    · exact ⟨v, said, fun d stands => .inr (fails stands)⟩
  · obtain ⟨d, entry, stands⟩ := lists.listed _ said
    refine ⟨_, entry, ?_⟩
    rw [judge, first]
    exact fails stands

end Walk

section Get

variable {α : Type} {r : Record} {reader : Reader α} {f : α → Value}

theorem get_of_holds {a : α} (holds : r.Holds fields fs) (name : String) (isKnown : known fields name = true) (said : (name, f a) ∈ fs)
    (reads : reader.Reads f a) : r.get name reader = .ok a := by
  obtain ⟨d, present, stands⟩ := holds said isKnown
  rw [get, present]
  exact reads stands

theorem get?_of_holds {a? : Option α} (holds : r.Holds fields fs) (name : String) (isKnown : known fields name = true)
    (said : (name, Value.orNull f a?) ∈ fs) (reads : (Reader.optional reader).Reads (Value.orNull f) a?) :
    r.get? name reader = .ok a? := by
  obtain ⟨d, present, stands⟩ := holds said isKnown
  rw [get?, present]
  exact reads stands

end Get

section Read

variable {d : Draft} (once : (fs.map (·.1)).Nodup) (only : ∀ f ∈ fs, known fields f.1 = true) (stands : d.StandsFor depth (.ofFields fs))

include once only stands

/-- **A record whose fields are all let through is read**, whatever the order of its fields, and holds them. -/
theorem exists_read (checks : Each Field.Passes fields fs) :
    ∃ r, read fields depth d = .ok r ∧ r.Holds fields fs := by
  obtain ⟨entries, rfl, shallow, lists⟩ := stands.exists_lists once
  obtain ⟨seen, walked, complete, holds⟩ := exists_walk skipped once lists
    (fun f listed unknown => absurd (only f listed) (by simp [unknown])) checks
  refine ⟨⟨depth + 1, seen⟩, ?_, holds⟩
  simp only [read, readObject, if_pos shallow, walked, complete, bind, Except.bind, if_true]

/-- If some field is refused for its shape and the others are let through, the record is refused for its shape. -/
theorem read_mismatch (checks : Each (fun f v => f.Passes v ∨ f.Fails v) fields fs) {f : Field} {v : Value}
    (first : fields.find? (·.name == f.name) = some f) (said : (f.name, v) ∈ fs) (fails : f.Fails v) :
    read fields depth d = .error .mismatch := by
  obtain ⟨entries, rfl, shallow, lists⟩ := stands.exists_lists once
  have walked := walk_mismatch skipped once lists (fun f listed unknown => absurd (only f listed) (by simp [unknown]))
    checks first said fails
  simp only [read, readObject, if_pos shallow, walked, bind, Except.bind]

end Read

end Record

end Proctor.Json

namespace Proctor.Wire

open Json Json.Draft Json.Record

variable {fields : List Field} {depth : Nat} {entries : List (String × Draft)} {fs : List (String × Value)} {d : Draft}

/-- What stands for a value is one. -/
theorem isValue_of_standsFor {v : Value} (stands : d.StandsFor depth v) : isValue depth d = .ok () := by
  rw [isValue, stands.value]
  rfl

/-- The fields of a record are read, and the other ones are kept as they are. -/
theorem exists_recordAndRest (once : (fs.map (·.1)).Nodup) (stands : d.StandsFor depth (.ofFields fs))
    (checks : Each Field.Passes fields fs) : ∃ seen rest,
    recordAndRest fields depth d = .ok (⟨depth + 1, seen⟩, keyed rest) ∧ Holds ⟨depth + 1, seen⟩ fields fs ∧
      Lists rest (depth + 1) (fs.filter fun f => !known fields f.1) := by
  obtain ⟨entries, rfl, shallow, lists⟩ := stands.exists_lists once
  obtain ⟨seen, walked, complete, holds⟩ := exists_walk (isValue (depth + 1)) once lists
    (fun _ _ _ _ stands => isValue_of_standsFor stands) checks
  have others : (keyed entries).filter (fun e => !fields.any (some ·.name == e.1)) = keyed (entries.filter fun e => !known fields e.1) := by
    simp only [keyed, List.filter_map, known]
    rfl
  refine ⟨seen, _, ?_, holds, lists.filter fun key => !known fields key⟩
  simp only [recordAndRest, if_pos shallow, walked, complete, bind, Except.bind, if_true, others]

/-- The tag is taken from among the fields. -/
theorem exists_tag {name : String} {v : Value} (lists : Lists entries depth fs) (said : (name, v) ∈ fs) :
    ∃ d rest, tag name (keyed entries) = .ok (d, keyed rest) ∧ d.StandsFor depth v ∧ Lists rest depth (fs.filter fun f => f.1 != name) := by
  obtain ⟨d, entry, stands⟩ := lists.listed _ said
  have alone : (keyed entries).filter (·.1 == some name) = [(some name, d)] := by
    have only := filter_key_eq lists.distinct entry
    simp only [keyed, List.filter_map]
    rw [show ((fun e => e.1 == some name) ∘ fun e : String × Draft => (some e.1, e.2)) = fun e => e.1 == name from rfl, only]
    rfl
  have others : (keyed entries).filter (·.1 != some name) = keyed (entries.filter fun e => e.1 != name) := by
    simp only [keyed, List.filter_map]
    rfl
  refine ⟨d, _, ?_, stands, lists.filter fun key => key != name⟩
  simp only [tag, alone, others]

theorem exists_recordOf (once : (fs.map (·.1)).Nodup) (lists : Lists entries depth fs)
    (checks : Each Field.Passes fields fs) :
    ∃ seen, recordOf fields depth (keyed entries) = .ok ⟨depth, seen⟩ ∧ Holds ⟨depth, seen⟩ fields fs := by
  obtain ⟨seen, walked, complete, holds⟩ := exists_walk (fun _ => .ok ()) once lists (fun _ _ _ _ _ => rfl) checks
  refine ⟨seen, ?_, holds⟩
  simp only [recordOf, walked, complete, bind, Except.bind]

theorem recordOf_mismatch (once : (fs.map (·.1)).Nodup) (lists : Lists entries depth fs)
    (checks : Each (fun f v => f.Passes v ∨ f.Fails v) fields fs) {f : Field} {v : Value}
    (first : fields.find? (·.name == f.name) = some f) (said : (f.name, v) ∈ fs) (fails : f.Fails v) :
    recordOf fields depth (keyed entries) = .error .mismatch := by
  have walked := walk_mismatch (fun _ => .ok ()) once lists (fun _ _ _ _ _ => rfl) checks first said fails
  simp only [recordOf, walked, bind, Except.bind]

end Proctor.Wire
