import Proctor.Proofs.Question.Placing
import Proctor.Proofs.Wire.Items

/-!
# Placements as a review shows them

A review goes through the items of a matching and shows those that are placed. What a question accepts places only its own items in
its own slots, so nothing is lost on the way: the placements that are shown are the entries of the answer, in the order of
the items, and each has the label of its slot. Main statement: `Matching.rendered_accepted`.
-/

set_option autoImplicit false

namespace Proctor

/-- The answer with its labels, as it is sent; `null` if it is of the other kind. -/
def Details.rendered (d : Details) (value : AnswerValue) : Json.Value := .orNull Shown.json (d.present value)

/-- An item of a review sends its answer like this. -/
theorem Exam.ReviewItem.field?_student_answer (item : Exam.ReviewItem) {d : Details} {value : AnswerValue}
    (shown : item.shown = d.present value) : item.json.field? "student_answer" = some (d.rendered value) := by
  simp [json, Json.Value.field?_ofFields, Table.ofList, shown, Details.rendered]

namespace Placed

variable {placed : Placed}

@[simp] theorem field?_item_id : placed.json.field? "item_id" = some (.int placed.item.id) := by
  simp [json, Json.Value.field?_ofFields, Table.ofList]

@[simp] theorem field?_item : placed.json.field? "item" = some (.string placed.item.label) := by
  simp [json, Json.Value.field?_ofFields, Table.ofList]

@[simp] theorem field?_slot_id : placed.json.field? "slot_id" = some (.int placed.slot) := by
  simp [json, Json.Value.field?_ofFields, Table.ofList]

@[simp] theorem field?_slot : placed.json.field? "slot" = some (.orNull .string placed.label) := by
  simp [json, Json.Value.field?_ofFields, Table.ofList]

end Placed

namespace Matching

variable {q : Matching} {p p' : Placement} {fields fields' : List (String × Json.Value)} {item slot : Int} {placed : Placed}

theorem mem_placements_iff : placed ∈ q.placements p ↔
    placed.item ∈ q.items ∧ p.get? placed.item.id = some placed.slot ∧ placed.label = q.slotLabel? placed.slot := by
  obtain ⟨item, slot, label⟩ := placed
  simp only [placements, List.mem_filterMap, Option.map_eq_some_iff, Placed.mk.injEq]
  constructor
  · rintro ⟨_, listed, _, held, rfl, rfl, rfl⟩
    exact ⟨listed, held, rfl⟩
  · rintro ⟨listed, held, rfl⟩
    exact ⟨item, listed, slot, held, rfl, rfl, rfl⟩

/-- The items that are placed are shown, in their order. -/
theorem map_item_placements : (q.placements p).map (·.item) = q.items.filter fun item => p.contains item.id := by
  rw [placements, List.map_filterMap, ← List.filterMap_eq_filter]
  refine List.filterMap_congr fun item _ => ?_
  cases held : p.get? item.id <;> simp [Table.contains, held, Option.guard]

namespace Fills

/-- Where an accepted placement has an entry, the question has the item and the slot. -/
theorem known (fills : q.Fills fields p) (held : p.get? item = some slot) :
    item ∈ q.items.map (·.id) ∧ slot ∈ q.slots.map (·.id) := by
  obtain ⟨field, -, places⟩ := (fills.get?_iff item slot).1 held
  exact ⟨places.known, places.offered⟩

/-- **Nothing is lost**: the entries of an accepted placement are what is shown of it. -/
theorem exists_placed_iff (fills : q.Fills fields p) :
    (∃ placed ∈ q.placements p, placed.item.id = item ∧ placed.slot = slot) ↔ p.get? item = some slot := by
  constructor
  · rintro ⟨placed, shown, rfl, rfl⟩
    exact (mem_placements_iff.1 shown).2.1
  · intro held
    obtain ⟨labelled, listed, rfl⟩ := List.mem_map.1 (fills.known held).1
    exact ⟨⟨labelled, slot, q.slotLabel? slot⟩, mem_placements_iff.2 ⟨listed, held, rfl⟩, rfl, rfl⟩

/-- What is shown has the label of the first slot with its id. -/
theorem exists_slot (fills : q.Fills fields p) (shown : placed ∈ q.placements p) :
    ∃ slot, q.slots.find? (·.id == placed.slot) = some slot ∧ placed.label = some slot.label := by
  obtain ⟨-, held, label⟩ := mem_placements_iff.1 shown
  obtain ⟨slot, first, named⟩ := Option.map_eq_some_iff.1 (Option.get_mem (isSome_slotLabel?_iff.2 (fills.known held).2))
  refine ⟨slot, first, ?_⟩
  rw [label, slotLabel?, first]
  rfl

/-- Each entry is shown once if the ids of the items are distinct. -/
theorem length_placements (fills : q.Fills fields p) (distinct : (q.items.map (·.id)).Nodup) :
    (q.placements p).length = p.size := by
  have ids : (q.placements p).map (·.item.id) = (q.items.filter fun item => p.contains item.id).map (·.id) := by
    rw [← map_item_placements, List.map_map]
    rfl
  have once : ((q.placements p).map (·.item.id)).Nodup := ids ▸ distinct.sublist (List.filter_sublist.map _)
  have keys : ((q.placements p).map (·.item.id)).Perm p.keys := by
    refine (List.perm_ext_iff_of_nodup once p.nodup_keys).2 fun item => ?_
    rw [Table.mem_keys, List.mem_map]
    constructor
    · rintro ⟨placed, shown, rfl⟩
      exact ⟨placed.slot, (mem_placements_iff.1 shown).2.1⟩
    · rintro ⟨slot, held⟩
      obtain ⟨placed, shown, named, -⟩ := fills.exists_placed_iff.2 held
      exact ⟨placed, shown, named⟩
  rw [← List.length_map (·.item.id), keys.length_eq, Table.keys, List.length_map, Table.size]

end Fills

theorem rendered_placement : (Details.matching q).rendered (.placement p) = .array ((q.placements p).map Placed.json) := rfl

/-- The pairs of ids that are sent. -/
theorem Fills.exists_sent_iff (fills : q.Fills fields p) :
    (∃ v ∈ (q.placements p).map Placed.json, v.field? "item_id" = some (.int item) ∧ v.field? "slot_id" = some (.int slot)) ↔
      p.get? item = some slot := by
  rw [← fills.exists_placed_iff]
  simp [Json.Value.int]

/-- **The review shows every placement** of an answer that the question has accepted. The pairs of ids that are sent, also by an
item of a review, are the entries of the answer; the items come in the order of the question; each placement has a label, that of
the first slot with its id; if the ids of the items are distinct, there are as many placements as entries. So accepted answers
that are sent alike are the same. -/
theorem rendered_accepted (q : Matching) :
    (∀ payload p, q.accept payload = .ok (.placement p) → ∃ sent, (Details.matching q).rendered (.placement p) = .array sent ∧
      (∀ item : Exam.ReviewItem, item.shown = (Details.matching q).present (.placement p) →
        item.json.field? "student_answer" = some (.array sent)) ∧
      (∀ item slot, (∃ v ∈ sent, v.field? "item_id" = some (.int item) ∧ v.field? "slot_id" = some (.int slot)) ↔
        p.get? item = some slot) ∧
      sent.map (fun v => (v.field? "item_id", v.field? "item")) =
        (q.items.filter fun item => p.contains item.id).map (fun item => (some (.int item.id), some (.string item.label))) ∧
      (∀ v ∈ sent, ∃ slot, q.slots.find? (·.id == slot.id) = some slot ∧ v.field? "slot_id" = some (.int slot.id) ∧
        v.field? "slot" = some (.string slot.label)) ∧
      ((q.items.map (·.id)).Nodup → sent.length = p.size)) ∧
    ∀ payload payload' p p', q.accept payload = .ok (.placement p) → q.accept payload' = .ok (.placement p') →
      (Details.matching q).rendered (.placement p) = (Details.matching q).rendered (.placement p') → p = p' := by
  refine ⟨fun payload p accepted => ?shows, fun payload payload' p p' accepted accepted' alike => ?alike⟩
  case shows =>
    obtain ⟨fields, _, -, -, ⟨⟩, fills⟩ := exists_of_accept accepted
    refine ⟨_, rendered_placement, fun item shown => ?review, fun item slot => fills.exists_sent_iff, ?order, ?label,
      fun distinct => ?count⟩
    case review => rw [item.field?_student_answer shown, rendered_placement]
    case order =>
      rw [← map_item_placements, List.map_map, List.map_map]
      exact List.map_congr_left fun placed _ => by simp
    case label =>
      intro v sent
      obtain ⟨placed, shown, rfl⟩ := List.mem_map.1 sent
      obtain ⟨slot, first, label⟩ := fills.exists_slot shown
      have named : slot.id = placed.slot := by simpa using List.find?_some first
      exact ⟨slot, named ▸ first, by simp [named], by simp [label, Json.Value.orNull]⟩
    case count => rw [List.length_map, fills.length_placements distinct]
  case alike =>
    obtain ⟨fields, _, -, -, ⟨⟩, fills⟩ := exists_of_accept accepted
    obtain ⟨fields', _, -, -, ⟨⟩, fills'⟩ := exists_of_accept accepted'
    have same : (q.placements p).map Placed.json = (q.placements p').map Placed.json := by
      simpa [rendered_placement] using alike
    apply Table.ext_get?
    intro item
    apply Option.ext
    intro slot
    rw [← fills.exists_sent_iff, ← fills'.exists_sent_iff, same]

/-- Of the matching in which an item is there twice, an answer that places this item is shown with two placements, and
another answer is shown in another way. -/
theorem rendered_accepted_of_capitals :
    let payload : Json.Value := .object [("2", .int 7)]
    let payload' : Json.Value := .object [("1", .int 8), ("2", .int 7)]
    let p : Placement := .ofList [(2, 7)]
    let p' : Placement := .ofList [(1, 8), (2, 7)]
    Sample.capitals.accept payload = .ok (.placement p) ∧ Sample.capitals.accept payload' = .ok (.placement p') ∧
      (∃ sent, (Details.matching Sample.capitals).rendered (.placement p) = .array sent ∧
        sent.map (fun v => (v.field? "item_id", v.field? "item")) =
          [(some (.int 2), some (.string "Japan")), (some (.int 2), some (.string "Nippon"))] ∧
        ∃ v ∈ sent, v.field? "slot_id" = some (.int 7) ∧ v.field? "slot" = some (.string "Paris")) ∧
      (Details.matching Sample.capitals).rendered (.placement p) ≠ (Details.matching Sample.capitals).rendered (.placement p') := by
  intro payload payload' p p'
  have accepted : Sample.capitals.accept payload = .ok (.placement p) := rfl
  have accepted' : Sample.capitals.accept payload' = .ok (.placement p') := rfl
  obtain ⟨shows, alike⟩ := rendered_accepted Sample.capitals
  obtain ⟨sent, rendered, -, pairs, order, label, -⟩ := shows payload p accepted
  refine ⟨accepted, accepted', ⟨sent, rendered, order, ?_⟩, fun same => ?_⟩
  · obtain ⟨v, listed, -, placed⟩ := (pairs 2 7).2 rfl
    obtain ⟨slot, first, named, labelled⟩ := label v listed
    refine ⟨v, listed, placed, ?_⟩
    have seven : slot.id = 7 := by simpa [Json.Value.int, placed, eq_comm] using named
    rw [seven] at first
    rw [labelled, ← Option.some.inj first]
  · exact absurd (alike payload payload' p p' accepted accepted' same) (by decide)

end Matching

end Proctor
