import Mathlib.Data.List.Perm.Subperm
import Proctor.Proofs.Question.Placing
import Proctor.Proofs.Text.Integer

/-!
# When a matching is graded right

A placement is right if it has as many entries as the question has items, and each item is where the key has it. An accepted
placement has distinct items of the question for its keys, so counting shows that it is right just if the ids of the items
are distinct and each item is placed as the key says. Main statement: `Matching.grades_iff`, also that there is at most one
right answer, and when there is one; it is written down with the ids as they are (`Matching.written`).
-/

set_option autoImplicit false

namespace Proctor.Matching

variable {q : Matching} {p : Placement} {fields : List (String × Json.Value)} {payload : Json.Value} {value : AnswerValue}

/-- The ids of items and slots are signed 64-bit numbers. -/
structure Fits (q : Matching) : Prop where
  items : ∀ item ∈ q.items, Text.Width.signed64.holds item.id = true
  slots : ∀ slot ∈ q.slots, Text.Width.signed64.holds slot.id = true

theorem rightly_iff {item : Labelled} :
    q.rightly p item = true ↔ ∃ slot, p.get? item.id = some slot ∧ q.key.get? item.id = some slot := by
  unfold rightly
  split
  · rename_i given expected held wanted
    simp [held, wanted, beq_iff_eq, eq_comm (a := expected)]
  · rename_i missing
    exact ⟨nofun, fun ⟨slot, held, wanted⟩ => absurd wanted (missing slot slot held)⟩

/-- Distinct keys that are ids of items are as many as the items just if the ids are distinct and all of them are keys. -/
theorem length_keys_eq_iff {ids keys : List Int} (distinct : keys.Nodup) (known : keys ⊆ ids) (placed : ids ⊆ keys) :
    keys.length = ids.length ↔ ids.Nodup := by
  have fewer : keys.length ≤ ids.length := (List.subperm_of_subset distinct known).length_le
  refine ⟨fun same => ?_, fun nodup => ?_⟩
  · have perm : keys.Perm ids := (List.subperm_of_subset distinct known).perm_of_length_le (Nat.le_of_eq same.symm)
    exact perm.nodup_iff.1 distinct
  · exact Nat.le_antisymm fewer (List.subperm_of_subset nodup placed).length_le

/-- **Counting**: an accepted placement is right just if it places all items as the key says, and no id is there twice. -/
theorem Fills.graded_iff (fills : q.Fills fields p) :
    q.grades (.placement p) = true ↔ (q.items.map (·.id)).Nodup ∧
      ∀ item ∈ q.items, ∃ slot, p.get? item.id = some slot ∧ q.key.get? item.id = some slot := by
  have known : p.keys ⊆ q.items.map (·.id) := fun item listed => by
    obtain ⟨slot, held⟩ := Table.mem_keys.1 listed
    obtain ⟨field, -, places⟩ := (fills.get?_iff item slot).1 held
    exact places.known
  have length : p.keys.length = p.size := List.length_map _
  have rightly : (q.items.all (q.rightly p) = true) ↔
      ∀ item ∈ q.items, ∃ slot, p.get? item.id = some slot ∧ q.key.get? item.id = some slot := by
    simp only [List.all_eq_true, rightly_iff]
  rw [grades, Bool.and_eq_true, beq_iff_eq, rightly]
  refine and_congr_left fun right => ?_
  have placed : q.items.map (·.id) ⊆ p.keys := fun id named => by
    obtain ⟨item, listed, rfl⟩ := List.mem_map.1 named
    obtain ⟨slot, held, -⟩ := right item listed
    exact Table.mem_keys.2 ⟨slot, held⟩
  have counted : (q.items.map (·.id)).length = q.items.length := List.length_map _
  rw [← length, ← counted, length_keys_eq_iff p.nodup_keys known placed]

/-- **One right answer**: two accepted placements that are both right are the same. -/
theorem eq_of_grades {payload' : Json.Value} {value' : AnswerValue} (accepted : q.accept payload = .ok value)
    (accepted' : q.accept payload' = .ok value') (right : q.grades value = true) (right' : q.grades value' = true) :
    value = value' := by
  obtain ⟨fields, p, -, -, rfl, fills⟩ := exists_of_accept accepted
  obtain ⟨fields', p', -, -, rfl, fills'⟩ := exists_of_accept accepted'
  have transfer {fields fields' : List (String × Json.Value)} {a b : Placement} (fills : q.Fills fields a)
      (fills' : q.Fills fields' b) (right : q.grades (.placement a) = true) (right' : q.grades (.placement b) = true)
      {id slot : Int} (held : a.get? id = some slot) : b.get? id = some slot := by
    obtain ⟨field, -, places⟩ := (fills.get?_iff id slot).1 held
    obtain ⟨item, listed, rfl⟩ := List.mem_map.1 places.known
    obtain ⟨mine, given, wanted⟩ := (fills.graded_iff.1 right).2 item listed
    obtain ⟨theirs, given', wanted'⟩ := (fills'.graded_iff.1 right').2 item listed
    rw [given', ← wanted', wanted, ← given, held]
  have same : p = p' := Table.ext_get? fun id => Option.ext fun slot =>
    ⟨transfer fills fills' right right', transfer fills' fills right' right⟩
  rw [same]

/-- The object that places every item where the key has it. -/
def written (q : Matching) : Table String Json.Value :=
  .ofList (q.items.map fun item => (Text.Integer.text item.id, .orNull .int (q.key.get? item.id)))

theorem itemOfKey?_text {id : Int} (fits : Text.Width.signed64.holds id = true) : itemOfKey? (Text.Integer.text id) = some id := by
  rw [itemOfKey?, Text.Integer.trim_text, Text.Integer.read_text fits]
  rfl

/-- What is written under the texts of distinct ids is found there. -/
theorem mem_ofList_text {α : Type} {l : List α} {id : α → Int} (fits : ∀ a ∈ l, Text.Width.signed64.holds (id a) = true)
    (distinct : (l.map id).Nodup) (v : α → Json.Value) {field : String × Json.Value} :
    field ∈ (Table.ofList (l.map fun a => (Text.Integer.text (id a), v a))).entries ↔
      ∃ a ∈ l, (Text.Integer.text (id a), v a) = field := by
  have keys : ((l.map fun a => (Text.Integer.text (id a), v a)).map (·.1)).Nodup := by
    rw [List.map_map]
    exact Text.Integer.nodup_map_text fits distinct
  rw [← Table.get?_eq_some, Table.get?_ofList keys, List.mem_map]

/-- Fields whose keys are the texts of the items that they place do not place an item twice. -/
theorem placeable_of_text {t : Table String Json.Value}
    (texts : ∀ field ∈ t.entries, ∃ item slot, field.1 = Text.Integer.text item ∧ q.Places field item slot) :
    q.Placeable t.entries where
  places field listed := by
    obtain ⟨item, slot, -, places⟩ := texts field listed
    exact ⟨item, slot, places⟩
  apart := by
    apply t.sorted.imp_of_mem
    intro a b listedA listedB lt same
    obtain ⟨item, _, textA, placesA⟩ := texts a listedA
    obtain ⟨item', _, textB, placesB⟩ := texts b listedB
    rw [placesA.named, placesB.named] at same
    have keys : compare a.1 b.1 = .eq := by
      rw [textA, textB, Option.some.inj same]
      exact Std.ReflCmp.compare_self
    cases lt.symm.trans keys

theorem mem_written_iff (fits : q.Fits) (distinct : (q.items.map (·.id)).Nodup) {field : String × Json.Value} :
    field ∈ q.written.entries ↔ ∃ item ∈ q.items, (Text.Integer.text item.id, .orNull .int (q.key.get? item.id)) = field :=
  mem_ofList_text fits.items distinct fun item => .orNull .int (q.key.get? item.id)

/-- The written object can be placed, and says where the key has the items. -/
theorem placeable_written (fits : q.Fits) (distinct : (q.items.map (·.id)).Nodup)
    (keyed : ∀ item ∈ q.items, ∃ slot ∈ q.slots, q.key.get? item.id = some slot.id) :
    q.Placeable q.written.entries ∧
      ∀ item ∈ q.items, ∃ slot, q.key.get? item.id = some slot ∧ ∃ field ∈ q.written.entries, q.Places field item.id slot := by
  have places {item : Labelled} (listed : item ∈ q.items) : ∃ slot, q.key.get? item.id = some slot ∧
      q.Places (Text.Integer.text item.id, .orNull .int (q.key.get? item.id)) item.id slot := by
    obtain ⟨slot, offered, wanted⟩ := keyed item listed
    refine ⟨slot.id, wanted, ?_⟩
    constructor
    case named => exact itemOfKey?_text (fits.items item listed)
    case whole => simp [wanted, Json.Value.orNull]
    case width => exact fits.slots slot offered
    case known => exact List.mem_map.2 ⟨item, listed, rfl⟩
    case offered => exact List.mem_map.2 ⟨slot, offered, rfl⟩
  constructor
  · apply placeable_of_text
    intro field written
    obtain ⟨item, listed, rfl⟩ := (mem_written_iff fits distinct).1 written
    obtain ⟨slot, -, placed⟩ := places listed
    exact ⟨item.id, slot, rfl, placed⟩
  · intro item listed
    obtain ⟨slot, wanted, placed⟩ := places listed
    exact ⟨slot, wanted, _, (mem_written_iff fits distinct).2 ⟨item, listed, rfl⟩, placed⟩

/-- **When a matching can be answered right**: the ids of its items are distinct, and its key gives each of them a slot. -/
theorem exists_right_iff (fits : q.Fits) :
    (∃ payload value, payload.Ordered ∧ q.accept payload = .ok value ∧ q.grades value = true) ↔
      (q.items.map (·.id)).Nodup ∧ ∀ item ∈ q.items, ∃ slot ∈ q.slots, q.key.get? item.id = some slot.id := by
  constructor
  · rintro ⟨payload, value, -, accepted, right⟩
    obtain ⟨fields, p, -, -, rfl, fills⟩ := exists_of_accept accepted
    obtain ⟨distinct, placed⟩ := fills.graded_iff.1 right
    refine ⟨distinct, fun item listed => ?_⟩
    obtain ⟨slot, given, wanted⟩ := placed item listed
    obtain ⟨field, -, places⟩ := (fills.get?_iff item.id slot).1 given
    obtain ⟨offer, offered, rfl⟩ := List.mem_map.1 places.offered
    exact ⟨offer, offered, wanted⟩
  · rintro ⟨distinct, keyed⟩
    obtain ⟨placeable, placed⟩ := placeable_written fits distinct keyed
    obtain ⟨p, accepted, fills⟩ := accept_of_placeable placeable
    refine ⟨.ofTable q.written, .placement p, Json.Value.ordered_ofTable _, accepted, ?_⟩
    refine fills.graded_iff.2 ⟨distinct, fun item listed => ?_⟩
    obtain ⟨slot, wanted, places⟩ := placed item listed
    exact ⟨slot, (fills.get?_iff item.id slot).2 places, wanted⟩

/-- Only what the key says of the items of the question matters. -/
theorem grades_congr {key : Placement} (agree : ∀ item ∈ q.items, key.get? item.id = q.key.get? item.id) :
    ({ q with key } : Matching).grades = q.grades := by
  funext value
  cases value with
  | option => rfl
  | placement p =>
    have rightly item (listed : item ∈ q.items) : ({ q with key } : Matching).rightly p item = q.rightly p item := by
      unfold Matching.rightly
      rw [agree item listed]
    have all : q.items.all (({ q with key } : Matching).rightly p) = q.items.all (q.rightly p) := by
      rw [Bool.eq_iff_iff, List.all_eq_true, List.all_eq_true]
      exact forall₂_congr fun item listed => by rw [rightly item listed]
    show (p.size == q.items.length && q.items.all _) = _
    rw [all]
    rfl

/-- **All or nothing**: an accepted placement is graded right just if no id is there twice among the items, and each item is
where the key has it. So there is at most one right answer, there is one just if the ids are distinct and the key gives each of
them a slot of the question, and it does not matter what else the key says. -/
theorem grades_iff (q : Matching) :
    (∀ payload p, q.accept payload = .ok (.placement p) → (q.grades (.placement p) = true ↔ (q.items.map (·.id)).Nodup ∧
        ∀ item ∈ q.items, ∃ slot, p.get? item.id = some slot ∧ q.key.get? item.id = some slot)) ∧
      (∀ payload payload' value value', q.accept payload = .ok value → q.accept payload' = .ok value' →
        q.grades value = true → q.grades value' = true → value = value') ∧
      (q.Fits → ((∃ payload value, payload.Ordered ∧ q.accept payload = .ok value ∧ q.grades value = true) ↔
        (q.items.map (·.id)).Nodup ∧ ∀ item ∈ q.items, ∃ slot ∈ q.slots, q.key.get? item.id = some slot.id)) ∧
      ∀ key : Placement, (∀ item ∈ q.items, key.get? item.id = q.key.get? item.id) →
        ({ q with key } : Matching).accept = q.accept ∧ ({ q with key } : Matching).grades = q.grades := by
  refine ⟨fun payload p accepted => ?_, fun _ _ _ _ => eq_of_grades, exists_right_iff, fun key agree => ⟨rfl, grades_congr agree⟩⟩
  obtain ⟨fields, _, -, -, ⟨⟩, fills⟩ := exists_of_accept accepted
  exact fills.graded_iff

/-- Two items in two slots; the key speaks of a third item that there is not. -/
def Sample.pair : Matching :=
  ⟨[⟨1, "France"⟩, ⟨2, "Japan"⟩], [⟨7, "Paris"⟩, ⟨8, "Tokyo"⟩], .ofList [(1, 7), (2, 8), (3, 9)]⟩

theorem grades_iff_of_pair :
    (∃ payload value, payload.Ordered ∧ Sample.pair.accept payload = .ok value ∧ Sample.pair.grades value = true) ∧
      ¬∃ payload value, payload.Ordered ∧ Sample.capitals.accept payload = .ok value ∧ Sample.capitals.grades value = true := by
  have pair : Sample.pair.Fits := ⟨by decide, by decide⟩
  have capitals : Sample.capitals.Fits := ⟨by decide, by decide⟩
  refine ⟨((grades_iff Sample.pair).2.2.1 pair).2 ⟨by decide, by decide⟩, fun right => ?_⟩
  have distinct := (((grades_iff Sample.capitals).2.2.1 capitals).1 right).1
  exact absurd distinct (by decide)

end Proctor.Matching
