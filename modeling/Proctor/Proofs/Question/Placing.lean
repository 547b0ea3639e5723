import Mathlib.Data.List.Induction
import Proctor.Proofs.Json.Ordered
import Proctor.Proofs.Table
import Proctor.Question.Marking

/-!
# What a matching accepts

A matching accepts an object whose fields place its items in its slots, no item twice; otherwise the first field that is
wrong decides the fault. The fields are worked off one by one, and what has been placed up to a field says what has been
named before it (`Fills`), however the keys are spelt. Main statement: `Matching.accept_iff`, for objects as they are read,
whose fields are listed by the bytes of their keys.
-/

set_option autoImplicit false

namespace Proctor.Matching

variable {q : Matching} {field : String × Json.Value} {fields : List (String × Json.Value)} {item slot : Int} {p : Placement}
  {fault : InputFault}

/-- The field names an item of the question, and a slot of the question by a whole number. -/
structure Places (q : Matching) (field : String × Json.Value) (item slot : Int) : Prop where
  named : itemOfKey? field.1 = some item
  whole : field.2 = .int slot
  width : Text.Width.signed64.holds slot = true
  known : item ∈ q.items.map (·.id)
  offered : slot ∈ q.slots.map (·.id)

/-- Every field places an item, and no two fields name the same one. -/
structure Placeable (q : Matching) (fields : List (String × Json.Value)) : Prop where
  places : ∀ field ∈ fields, ∃ item slot, q.Places field item slot
  apart : fields.Pairwise fun a b => itemOfKey? a.1 ≠ itemOfKey? b.1

/-- The placement has one entry for each field, and it is what the field places. -/
structure Fills (q : Matching) (fields : List (String × Json.Value)) (p : Placement) : Prop where
  get?_iff : ∀ item slot, p.get? item = some slot ↔ ∃ field ∈ fields, q.Places field item slot
  size : p.size = fields.length

/-- What is wrong with a field by the first check that it fails, when items are `taken` by the fields before it. -/
inductive Flaw (q : Matching) (taken : Int → Prop) (field : String × Json.Value) : InputFault → Prop where
  | badItem (unread : itemOfKey? field.1 = none) : Flaw q taken field (.badItem field.1)
  | slotNotWhole {item : Int} (named : itemOfKey? field.1 = some item)
      (none : ∀ slot, Text.Width.signed64.holds slot = true → field.2 ≠ .int slot) : Flaw q taken field (.slotNotWhole item)
  | unknownItem {item slot : Int} (named : itemOfKey? field.1 = some item) (whole : field.2 = .int slot)
      (width : Text.Width.signed64.holds slot = true) (unknown : item ∉ q.items.map (·.id)) :
      Flaw q taken field (.unknownItem item)
  | unknownSlot {item slot : Int} (named : itemOfKey? field.1 = some item) (whole : field.2 = .int slot)
      (width : Text.Width.signed64.holds slot = true) (known : item ∈ q.items.map (·.id))
      (unoffered : slot ∉ q.slots.map (·.id)) : Flaw q taken field (.unknownSlot slot)
  | placedTwice {item slot : Int} (places : q.Places field item slot) (again : taken item) :
      Flaw q taken field (.placedTwice item)

/-- One of the fields names the item. -/
def Named (fields : List (String × Json.Value)) (item : Int) : Prop := ∃ field ∈ fields, itemOfKey? field.1 = some item

/-- One of the fields whose keys have smaller bytes than this key names the item. -/
def NamedBefore (fields : List (String × Json.Value)) (key : String) (item : Int) : Prop :=
  ∃ field ∈ fields, Text.utf8 field.1 < Text.utf8 key ∧ itemOfKey? field.1 = some item

/-- What is wrong with the first bad field in the order of the bytes of the keys. -/
def FirstFlaw (q : Matching) (fields : List (String × Json.Value)) (fault : InputFault) : Prop :=
  ∃ field ∈ fields, q.Flaw (NamedBefore fields field.1) field fault ∧
    ∀ other ∈ fields, Text.utf8 other.1 < Text.utf8 field.1 → ∀ earlier, ¬q.Flaw (NamedBefore fields other.1) other earlier

theorem hasItem_iff : q.hasItem item = true ↔ item ∈ q.items.map (·.id) := by
  simp [hasItem]

theorem isSome_slotLabel?_iff : (q.slotLabel? slot).isSome = true ↔ slot ∈ q.slots.map (·.id) := by
  simp [slotLabel?]

theorem Places.unique {item' slot' : Int} (a : q.Places field item slot) (b : q.Places field item' slot') :
    item = item' ∧ slot = slot' := by
  have whole := a.whole.symm.trans b.whole
  exact ⟨Option.some.inj (a.named.symm.trans b.named), by simpa [Json.Value.int] using whole⟩

/-- A field has a flaw, or it places an item that is not taken. -/
theorem exists_flaw_or_places (q : Matching) (taken : Int → Prop) (field : String × Json.Value) :
    (∃ fault, q.Flaw taken field fault) ∨ ∃ item slot, q.Places field item slot ∧ ¬taken item := by
  cases named : itemOfKey? field.1 with
  | none => exact .inl ⟨_, .badItem named⟩
  | some item =>
    by_cases whole : ∃ slot, Text.Width.signed64.holds slot = true ∧ field.2 = .int slot
    case neg => exact .inl ⟨_, .slotNotWhole named fun slot width eq => whole ⟨slot, width, eq⟩⟩
    obtain ⟨slot, width, whole⟩ := whole
    by_cases known : item ∈ q.items.map (·.id)
    case neg => exact .inl ⟨_, .unknownItem named whole width known⟩
    by_cases offered : slot ∈ q.slots.map (·.id)
    case neg => exact .inl ⟨_, .unknownSlot named whole width known offered⟩
    have places : q.Places field item slot := ⟨named, whole, width, known, offered⟩
    by_cases again : taken item
    · exact .inl ⟨_, .placedTwice places again⟩
    · exact .inr ⟨item, slot, places, again⟩

theorem place_of_places (places : q.Places field item slot) (fresh : p.get? item = none) :
    q.place p field = .ok (p.insert item slot) := by
  have whole := Json.Value.int64?_eq_some_iff.2 ⟨places.whole, places.width⟩
  have known := hasItem_iff.2 places.known
  have offered : (q.slotLabel? slot).isNone = false := by simpa using isSome_slotLabel?_iff.2 places.offered
  simp [place, places.named, whole, known, offered, Table.contains, fresh]

theorem place_of_flaw (flaw : q.Flaw (fun item => p.get? item ≠ none) field fault) : q.place p field = .error fault := by
  cases flaw with
  | badItem unread => simp [place, unread]
  | slotNotWhole named none =>
    have notWhole : field.2.int64? = .none := Option.eq_none_iff_forall_ne_some.2 fun slot read =>
      none slot (Json.Value.int64?_eq_some_iff.1 read).2 (Json.Value.int64?_eq_some_iff.1 read).1
    simp [place, named, notWhole]
  | unknownItem named whole width unknown =>
    have whole := Json.Value.int64?_eq_some_iff.2 ⟨whole, width⟩
    have missing := eq_false_of_ne_true (mt hasItem_iff.1 unknown)
    simp [place, named, whole, missing]
  | @unknownSlot _ slot named whole width known unoffered =>
    have whole := Json.Value.int64?_eq_some_iff.2 ⟨whole, width⟩
    have missing : (q.slotLabel? slot).isNone = true := by simpa using mt isSome_slotLabel?_iff.1 unoffered
    simp [place, named, whole, hasItem_iff.2 known, missing]
  | @placedTwice item slot places again =>
    have whole := Json.Value.int64?_eq_some_iff.2 ⟨places.whole, places.width⟩
    have offered : (q.slotLabel? slot).isNone = false := by simpa using isSome_slotLabel?_iff.2 places.offered
    have held : p.contains item = true := Option.isSome_iff_ne_none.2 again
    simp [place, places.named, whole, hasItem_iff.2 places.known, offered, held]

/-- Items are taken as soon as a field names them. -/
theorem Fills.get?_ne_none_iff (fills : q.Fills fields p) (placeable : q.Placeable fields) :
    p.get? item ≠ none ↔ Named fields item := by
  refine ⟨fun held => ?_, fun ⟨field, listed, named⟩ => ?_⟩
  · obtain ⟨slot, held⟩ := Option.ne_none_iff_exists'.1 held
    obtain ⟨field, listed, places⟩ := (fills.get?_iff item slot).1 held
    exact ⟨field, listed, places.named⟩
  · obtain ⟨item', slot, places⟩ := placeable.places field listed
    obtain rfl : item' = item := Option.some.inj (places.named.symm.trans named)
    rw [(fills.get?_iff item' slot).2 ⟨field, listed, places⟩]
    exact nofun

/-- **One more field** that places an item which is not placed. -/
theorem Fills.snoc (fills : q.Fills fields p) (places : q.Places field item slot) (fresh : p.get? item = none) :
    q.Fills (fields ++ [field]) (p.insert item slot) where
  get?_iff item' slot' := by
    simp only [Table.get?_insert, List.mem_append, List.mem_singleton]
    split
    · rename_i eq
      subst eq
      refine ⟨fun eq => ⟨field, .inr rfl, Option.some.inj eq ▸ places⟩, ?_⟩
      rintro ⟨other, listed | rfl, placed⟩
      · cases fresh.symm.trans ((fills.get?_iff item' slot').2 ⟨other, listed, placed⟩)
      · rw [(places.unique placed).2]
    · rename_i ne
      rw [fills.get?_iff]
      refine ⟨fun ⟨other, listed, placed⟩ => ⟨other, .inl listed, placed⟩, ?_⟩
      rintro ⟨other, listed | rfl, placed⟩
      · exact ⟨other, listed, placed⟩
      · exact absurd (places.unique placed).1.symm ne
  size := by rw [Table.size_insert fresh, fills.size, List.length_append, List.length_singleton]

theorem Placeable.snoc (placeable : q.Placeable fields) (places : q.Places field item slot) (fresh : ¬Named fields item) :
    q.Placeable (fields ++ [field]) where
  places other listed := by
    obtain listed | listed := List.mem_append.1 listed
    · exact placeable.places other listed
    · exact ⟨item, slot, List.mem_singleton.1 listed ▸ places⟩
  apart := by
    refine List.pairwise_append.2 ⟨placeable.apart, List.pairwise_singleton _ _, fun other listed last isLast same => fresh ?_⟩
    rw [List.mem_singleton.1 isLast, places.named] at same
    exact ⟨other, listed, same⟩

theorem Placeable.left {after : List (String × Json.Value)} (placeable : q.Placeable (fields ++ after)) : q.Placeable fields where
  places field listed := placeable.places field (List.mem_append_left _ listed)
  apart := (List.pairwise_append.1 placeable.apart).1

/-- A field that comes after others names another item than these do. -/
theorem Placeable.exists_last (placeable : q.Placeable (fields ++ [field])) :
    ∃ item slot, q.Places field item slot ∧ ¬Named fields item := by
  obtain ⟨item, slot, places⟩ := placeable.places field (by simp)
  refine ⟨item, slot, places, fun ⟨other, listed, named⟩ => ?_⟩
  exact (List.pairwise_append.1 placeable.apart).2.2 other listed field (by simp) (named.trans places.named.symm)

/-- The fields can be placed, or one of them is the first that has a flaw. -/
theorem placeable_or_exists_flaw (q : Matching) (fields : List (String × Json.Value)) :
    q.Placeable fields ∨
      ∃ before field after fault, fields = before ++ field :: after ∧ q.Placeable before ∧ q.Flaw (Named before) field fault := by
  induction fields using List.reverseRecOn with
  | nil => exact .inl ⟨nofun, .nil⟩
  | append_singleton fields field ih =>
    obtain placeable | ⟨before, bad, after, fault, rfl, placeable, flaw⟩ := ih
    · obtain ⟨fault, flaw⟩ | ⟨item, slot, places, fresh⟩ := q.exists_flaw_or_places (Named fields) field
      · exact .inr ⟨fields, field, [], fault, rfl, placeable, flaw⟩
      · exact .inl (placeable.snoc places fresh)
    · exact .inr ⟨before, bad, after ++ [field], fault, by simp, placeable, flaw⟩

/-- **A run over fields that can be placed** has placed after each of them what the fields up to it say. -/
theorem foldlM_of_placeable (placeable : q.Placeable fields) : ∃ p, fields.foldlM q.place ∅ = .ok p ∧ q.Fills fields p := by
  induction fields using List.reverseRecOn with
  | nil => exact ⟨∅, rfl, by simp, rfl⟩
  | append_singleton fields field ih =>
    obtain ⟨p, run, fills⟩ := ih placeable.left
    obtain ⟨item, slot, places, unnamed⟩ := placeable.exists_last
    have fresh : p.get? item = none := not_not.1 (mt (fills.get?_ne_none_iff placeable.left).1 unnamed)
    refine ⟨p.insert item slot, ?_, fills.snoc places fresh⟩
    rw [List.foldlM_append, run]
    exact (bind_pure _).trans (place_of_places places fresh)

/-- **A run up to a flaw** fails with it, whatever comes after. -/
theorem foldlM_of_flaw {before : List (String × Json.Value)} (placeable : q.Placeable before)
    (flaw : q.Flaw (Named before) field fault) (after : List (String × Json.Value)) :
    (before ++ field :: after).foldlM q.place ∅ = .error fault := by
  obtain ⟨p, run, fills⟩ := foldlM_of_placeable placeable
  have taken : Named before = fun item => p.get? item ≠ none :=
    funext fun item => propext (fills.get?_ne_none_iff placeable).symm
  rw [List.foldlM_append, run]
  show (q.place p field >>= fun p => after.foldlM q.place p) = _
  rw [place_of_flaw (taken ▸ flaw)]
  rfl

theorem Placeable.not_flaw {before after : List (String × Json.Value)} (placeable : q.Placeable (before ++ field :: after)) :
    ¬q.Flaw (Named before) field fault := by
  intro flaw
  obtain ⟨p, run, -⟩ := foldlM_of_placeable placeable
  cases run.symm.trans (foldlM_of_flaw placeable.left flaw after)

theorem namedBefore_eq {before after : List (String × Json.Value)} (ordered : (Json.Value.object fields).Ordered)
    (split : fields = before ++ field :: after) : NamedBefore fields field.1 = Named before := by
  funext item
  refine propext ⟨fun ⟨other, listed, smaller, named⟩ => ?_, fun ⟨other, listed, named⟩ => ?_⟩
  · exact ⟨other, (Json.Value.mem_before_iff ordered split).2 ⟨listed, smaller⟩, named⟩
  · obtain ⟨listed, smaller⟩ := (Json.Value.mem_before_iff ordered split).1 listed
    exact ⟨other, listed, smaller, named⟩

/-- In an object the first flaw is where everything before it can be placed. -/
theorem firstFlaw_iff (ordered : (Json.Value.object fields).Ordered) :
    q.FirstFlaw fields fault ↔
      ∃ before field after, fields = before ++ field :: after ∧ q.Placeable before ∧ q.Flaw (Named before) field fault := by
  constructor
  · rintro ⟨field, listed, flaw, first⟩
    obtain ⟨before, after, split⟩ := List.append_of_mem listed
    refine ⟨before, field, after, split, ?_, namedBefore_eq ordered split ▸ flaw⟩
    obtain placeable | ⟨left, other, right, earlier, rfl, -, flaw⟩ := q.placeable_or_exists_flaw before
    · exact placeable
    have here : other ∈ left ++ other :: right := by simp
    obtain ⟨listed, smaller⟩ := (Json.Value.mem_before_iff ordered split).1 here
    have split : fields = left ++ other :: (right ++ field :: after) := by simpa using split
    exact absurd (namedBefore_eq ordered split ▸ flaw) (first other listed smaller earlier)
  · rintro ⟨before, field, after, split, placeable, flaw⟩
    refine ⟨field, by simp [split], (namedBefore_eq ordered split).symm ▸ flaw, fun other listed smaller earlier => ?_⟩
    obtain ⟨left, right, rfl⟩ := List.append_of_mem ((Json.Value.mem_before_iff ordered split).2 ⟨listed, smaller⟩)
    have split : fields = left ++ other :: (right ++ field :: after) := by simpa using split
    rw [namedBefore_eq ordered split]
    exact placeable.not_flaw

theorem accept_object : q.accept (.object fields) = (fields.foldlM q.place ∅).map .placement := rfl

theorem accept_of_not_object {payload : Json.Value} (other : ∀ fields, payload ≠ .object fields) :
    q.accept payload = .error .placementsWanted := by
  unfold accept
  split
  · exact absurd rfl (other _)
  · rfl

theorem accept_of_placeable (placeable : q.Placeable fields) :
    ∃ p, q.accept (.object fields) = .ok (.placement p) ∧ q.Fills fields p := by
  obtain ⟨p, run, fills⟩ := foldlM_of_placeable placeable
  exact ⟨p, by rw [accept_object, run]; rfl, fills⟩

theorem accept_of_flaw {before after : List (String × Json.Value)} (split : fields = before ++ field :: after)
    (placeable : q.Placeable before) (flaw : q.Flaw (Named before) field fault) : q.accept (.object fields) = .error fault := by
  rw [accept_object, split, foldlM_of_flaw placeable flaw after]
  rfl

/-- What is accepted is an object that can be placed, and is what its fields place. -/
theorem exists_of_accept {payload : Json.Value} {value : AnswerValue} (accepted : q.accept payload = .ok value) :
    ∃ fields p, payload = .object fields ∧ q.Placeable fields ∧ value = .placement p ∧ q.Fills fields p := by
  by_cases object : ∃ fields, payload = .object fields
  case neg => cases accepted.symm.trans (accept_of_not_object fun fields eq => object ⟨fields, eq⟩)
  obtain ⟨fields, rfl⟩ := object
  obtain placeable | ⟨before, field, after, fault, split, placeable, flaw⟩ := q.placeable_or_exists_flaw fields
  · obtain ⟨p, run, fills⟩ := accept_of_placeable placeable
    exact ⟨fields, p, rfl, placeable, Except.ok.inj (accepted.symm.trans run), fills⟩
  · cases accepted.symm.trans (accept_of_flaw split placeable flaw)

/-- An object that is refused has a first flaw, and is refused for it. -/
theorem accept_object_eq_error_iff (ordered : (Json.Value.object fields).Ordered) :
    q.accept (.object fields) = .error fault ↔ q.FirstFlaw fields fault := by
  rw [firstFlaw_iff ordered]
  refine ⟨fun refused => ?_, fun ⟨before, field, after, split, placeable, flaw⟩ => accept_of_flaw split placeable flaw⟩
  obtain placeable | ⟨before, field, after, other, split, placeable, flaw⟩ := q.placeable_or_exists_flaw fields
  · obtain ⟨p, accepted, -⟩ := accept_of_placeable placeable
    cases refused.symm.trans accepted
  · obtain rfl : fault = other := Except.error.inj (refused.symm.trans (accept_of_flaw split placeable flaw))
    exact ⟨before, field, after, split, placeable, flaw⟩

/-- **What a matching accepts**: an object whose every field names an item of the question, and gives it a slot of the
question, where no two fields name the same item. It is accepted as the placement with one entry for each field. Otherwise
the fault is that of the first bad field in the order of the bytes of the keys, by the first check that this field fails. -/
theorem accept_iff (q : Matching) (payload : Json.Value) :
    ((∃ value, q.accept payload = .ok value) ↔ ∃ fields, payload = .object fields ∧ q.Placeable fields) ∧
      (∀ value, q.accept payload = .ok value → ∃ fields p, payload = .object fields ∧ value = .placement p ∧ q.Fills fields p) ∧
      (payload.Ordered → ∀ fault, q.accept payload = .error fault ↔
        (∀ fields, payload ≠ .object fields) ∧ fault = .placementsWanted ∨
          ∃ fields, payload = .object fields ∧ q.FirstFlaw fields fault) := by
  refine ⟨⟨?accepted, ?accepts⟩, ?placement, fun ordered fault => ?fault⟩
  case accepted =>
    rintro ⟨value, accepted⟩
    obtain ⟨fields, -, object, placeable, -⟩ := exists_of_accept accepted
    exact ⟨fields, object, placeable⟩
  case accepts =>
    rintro ⟨fields, rfl, placeable⟩
    obtain ⟨p, accepted, -⟩ := accept_of_placeable placeable
    exact ⟨_, accepted⟩
  case placement =>
    intro value accepted
    obtain ⟨fields, p, object, -, placement, fills⟩ := exists_of_accept accepted
    exact ⟨fields, p, object, placement, fills⟩
  case fault =>
    by_cases object : ∃ fields, payload = .object fields
    · obtain ⟨fields, rfl⟩ := object
      simpa using accept_object_eq_error_iff ordered
    · have other fields : payload ≠ .object fields := fun eq => object ⟨fields, eq⟩
      rw [accept_of_not_object other]
      simp [other, eq_comm]

namespace Sample

/-- Two items, the second of them twice, and two slots. -/
def capitals : Matching :=
  ⟨[⟨1, "France"⟩, ⟨2, "Japan"⟩, ⟨2, "Nippon"⟩], [⟨7, "Paris"⟩, ⟨8, "Tokyo"⟩], .ofList [(1, 7), (2, 8)]⟩

/-- The first item by two keys with another between them. -/
def twice : List (String × Json.Value) := [(" 1", .int 7), ("+2", .int 8), ("01", .int 8)]

end Sample

theorem accept_iff_of_twice :
    Sample.capitals.Placeable (Sample.twice.take 2) ∧ Sample.capitals.FirstFlaw Sample.twice (.placedTwice 1) := by
  constructor
  · have accepted : ∃ value, Sample.capitals.accept (.object (Sample.twice.take 2)) = .ok value := ⟨_, rfl⟩
    obtain ⟨_, ⟨⟩, placeable⟩ := (accept_iff Sample.capitals _).1.1 accepted
    exact placeable
  · have ordered : (Json.Value.object Sample.twice).Ordered := Json.Value.ordered_ofTable ⟨Sample.twice, by decide⟩
    have refused : Sample.capitals.accept (.object Sample.twice) = .error (.placedTwice 1) := rfl
    obtain ⟨other, -⟩ | ⟨_, ⟨⟩, flaw⟩ := ((accept_iff Sample.capitals _).2.2 ordered _).1 refused
    · exact absurd rfl (other Sample.twice)
    · exact flaw

end Proctor.Matching
