import Proctor.Proofs.Json.Printed
import Proctor.Proofs.Question.Grading
import Proctor.Proofs.Time.Rfc3339
import Proctor.Wire.Answer

/-!
# Questions and answers that are stored

Questions and answers are stored as JSON text and read from it again. What stores them may list the fields of an object in another order,
so the statements are about every text that writes a value, among them the one that is printed. Placements are the exception: their keys
are numbers when they are written, and texts when they are read, which are refused. So a value is read back as it was if no placement in
it has entries, and is not read at all otherwise. Main statement: `Wire.read_stored`.
-/

set_option autoImplicit false

namespace Proctor

open Json

/-! ## What can be stored -/

/-- The ids of a placement are signed 64-bit numbers. -/
structure Placement.Fits (p : Placement) : Prop where
  items : ∀ e ∈ p.entries, Text.Width.signed64.holds e.1 = true
  slots : ∀ e ∈ p.entries, Text.Width.signed64.holds e.2 = true

def AnswerValue.Fits : AnswerValue → Prop
  | .option _ => True
  | .placement p => Placement.Fits p

/-- The ids of an answer are signed 64-bit numbers, and its instant has a name. -/
structure Answer.Fits (a : Answer) : Prop where
  slot : Text.Width.signed64.holds a.slot = true
  value : a.value.Fits
  answeredAt : a.answeredAt.Nameable

def Details.Fits : Details → Prop
  | .choice _ => True
  | .matching q => q.Fits ∧ Placement.Fits q.key

/-- The ids of a question are signed 64-bit numbers. -/
structure Question.Fits (q : Question) : Prop where
  id : Text.Width.signed64.holds q.id = true
  subject : Text.Width.signed64.holds q.scope.subject = true
  level : Text.Width.signed64.holds q.scope.level = true
  topic : ∀ topic, q.scope.topic = some topic → Text.Width.signed64.holds topic = true
  details : q.details.Fits

/-- The value is no placement with entries. -/
def AnswerValue.unkeyed : AnswerValue → Bool
  | .option _ => true
  | .placement p => p.entries.isEmpty

/-- The question has no key with entries. -/
def Question.unkeyed (q : Question) : Bool :=
  match q.details with
  | .choice _ => true
  | .matching m => m.key.entries.isEmpty

namespace Wire

open Json.Draft Json.Reader Json.Field Json.Record

variable {depth : Nat} {d : Draft}

/-! ## Placements -/

section Placement

variable {p : Placement}

/-- The texts of distinct ids are distinct. -/
theorem nodup_keys_of_fits (fits : p.Fits) : ((p.entries.map fun e => (Text.Integer.text e.1, Value.int e.2)).map (·.1)).Nodup := by
  rw [List.map_map]
  exact Text.Integer.nodup_map_text fits.items p.nodup_keys

/-- What is written for a placement lists as many fields as this has entries, each of them with a number. -/
theorem exists_of_placement (fits : p.Fits) (stands : d.StandsFor depth (Placement.json p)) :
    ∃ entries, d = .object (keyed entries) true ∧ (entries = [] ↔ p.entries = []) ∧ ∀ e ∈ entries, e.2 ≠ .null := by
  obtain ⟨entries, rfl, shallow, lists⟩ := stands.exists_lists (nodup_keys_of_fits fits)
  refine ⟨entries, rfl, ⟨?_, ?_⟩, ?_⟩
  · rintro rfl
    refine List.eq_nil_iff_forall_not_mem.2 fun e listed => ?_
    obtain ⟨_, none, -⟩ := lists.listed _ (List.mem_map.2 ⟨e, listed, rfl⟩)
    cases none
  · intro none
    refine List.eq_nil_iff_forall_not_mem.2 fun e listed => ?_
    obtain ⟨_, said, -⟩ := lists.said e listed
    rw [none] at said
    cases said
  · rintro ⟨key, d⟩ listed rfl
    obtain ⟨v, said, stands⟩ := lists.said _ listed
    obtain ⟨e, -, eq⟩ := List.mem_map.1 said
    cases eq
    obtain ⟨n, eq, -⟩ := stands.exists_number
    cases eq

theorem nothing_of_isEmpty (fits : p.Fits) (empty : p.entries = []) (stands : d.StandsFor depth (Placement.json p)) :
    nothing depth d = .ok () := by
  obtain ⟨entries, rfl, none, -⟩ := exists_of_placement fits stands
  rw [none.2 empty]
  rfl

theorem nothing_mismatch (fits : p.Fits) (keyed : p.entries ≠ []) (stands : d.StandsFor depth (Placement.json p)) :
    nothing depth d = .error .mismatch := by
  obtain ⟨entries, rfl, none, -⟩ := exists_of_placement fits stands
  cases entries with
  | nil => exact absurd (none.1 rfl) keyed
  | cons e entries => rfl

/-- A placement is not taken for the name of an option. -/
theorem bufferedName_mismatch {α : Type} (f : String → Option α) (fits : p.Fits) (stands : d.StandsFor depth (Placement.json p)) :
    bufferedName f depth d = .error .mismatch := by
  obtain ⟨entries, rfl, -, proper⟩ := exists_of_placement fits stands
  cases entries with
  | nil => rfl
  | cons e entries =>
    -- a name may stand as the only key of an object, but then with `null` in it
    have first := proper e List.mem_cons_self
    obtain ⟨key, d⟩ := e
    cases d with
    | null => exact absurd rfl first
    | _ => cases entries <;> rfl

end Placement

/-! ## The parts of questions and answers -/

theorem reads_labelled {l : Labelled} (fits : Text.Width.signed64.holds l.id = true) : labelled.Reads Labelled.json l := by
  intro depth d stands
  have checks : Each Field.Passes labelledFields [("id", .int l.id), ("label", .string l.label)] :=
    each_cons (by simp [needed]) (passes_needed (reads_integer fits))
      (each_cons (by simp [needed]) (passes_needed (reads_string l.label)) each_nil)
  obtain ⟨r, read, holds⟩ := exists_read (by simp) (by simp [labelledFields, known, needed]) stands checks
  have id := get_of_holds holds "id" (by decide) (by simp) (reads_integer fits)
  have label := get_of_holds holds "label" (by decide) (by simp) (reads_string l.label)
  simp only [labelled, read, id, label, bind, Except.bind]

theorem reads_options (o : Options) : optionsReader.Reads Options.json o := by
  intro depth d stands
  have texts : list string depth d = .ok o.toList := reads_list (fun s _ => reads_string s) stands
  simp only [optionsReader, texts, Options.ofList?_toList, bind, Except.bind]

theorem reads_kind (k : Kind) : kindTag.Reads Kind.json k := by
  intro depth d stands
  have read : Reader.text Kind.ofName? depth d = .ok k := reads_text k.ofName?_name stands
  rw [stands.eq_string] at read ⊢
  exact read

theorem reads_choiceName (option : Choice) : choiceName.Reads Choice.json option := by
  intro depth d stands
  rw [stands.eq_string]
  simp only [choiceName, innerName, bufferedName, Choice.ofName?_name, Option.elim_some]

theorem reads_instant {t : Instant} (nameable : t.Nameable) : instant.Reads Instant.json t :=
  reads_text (Rfc3339.read_zulu nameable)

/-! ## Answers -/

/-- What is read of the text of a value whose placements may have entries. -/
def restored {α : Type} (unkeyed : Bool) (a : α) : Except Fault α := if unkeyed then .ok a else .error .mismatch

theorem answerValue_eq {v : AnswerValue} (fits : v.Fits) (stands : d.StandsFor depth v.json) :
    answerValue depth d = restored v.unkeyed v := by
  have value := isValue_of_standsFor stands
  cases v with
  | option picked =>
    have named : bufferedName Choice.ofName? depth d = .ok picked := by
      rw [stands.eq_string]
      simp only [bufferedName, Choice.ofName?_name, Option.elim_some]
    simp only [answerValue, value, named, bind, Except.bind]
    rfl
  | placement p =>
    have notNamed := bufferedName_mismatch Choice.ofName? fits stands
    by_cases empty : p.entries = []
    · simp only [answerValue, value, notNamed, nothing_of_isEmpty fits empty stands, bind, Except.bind]
      rw [Table.eq_empty_of_entries empty]
      rfl
    · have keyed : (AnswerValue.placement p).unkeyed = false := by simpa [AnswerValue.unkeyed] using empty
      simp only [answerValue, value, notNamed, nothing_mismatch fits empty stands, bind, Except.bind, keyed]
      rfl

/-- The fields of an answer. -/
def answerEntries (a : Answer) : List (String × Value) :=
  [("session_question_id", .int a.slot), ("value", a.value.json), ("is_correct", .bool a.isCorrect), ("answered_at", a.answeredAt.json)]

theorem each_answer {p : Field → Value → Prop} {a : Answer}
    (slot : p (.needed "session_question_id" (Reader.integer .signed64)) (.int a.slot))
    (value : p (.needed "value" answerValue) a.value.json)
    (isCorrect : p (.needed "is_correct" Reader.bool) (.bool a.isCorrect))
    (answeredAt : p (.needed "answered_at" instant) a.answeredAt.json) : Each p answerFields (answerEntries a) :=
  each_cons (by simp [needed, answerEntries]) slot (each_cons (by simp [needed, answerEntries]) value
    (each_cons (by simp [needed, answerEntries]) isCorrect (each_cons (by simp [needed, answerEntries]) answeredAt each_nil)))

theorem answer_eq {a : Answer} (fits : a.Fits) (stands : d.StandsFor depth a.json) : answer depth d = restored a.value.unkeyed a := by
  have once : ((answerEntries a).map (·.1)).Nodup := by simp [answerEntries]
  have only : ∀ f ∈ answerEntries a, known answerFields f.1 = true := by simp [answerEntries, answerFields, known, needed]
  have slot := reads_integer fits.slot
  have isCorrect := reads_bool a.isCorrect
  have answeredAt := reads_instant fits.answeredAt
  cases unkeyed : a.value.unkeyed with
  | true =>
    have value : answerValue.Reads AnswerValue.json a.value := by
      intro depth d stands
      rw [answerValue_eq fits.value stands, restored, if_pos unkeyed]
    have checks := each_answer (passes_needed slot) (passes_needed value) (passes_needed isCorrect) (passes_needed answeredAt)
    obtain ⟨r, read, holds⟩ := exists_read once only stands checks
    have slot_eq := get_of_holds holds "session_question_id" (by decide) (by simp [answerEntries]) slot
    have value_eq := get_of_holds holds "value" (by decide) (by simp [answerEntries]) value
    have isCorrect_eq := get_of_holds holds "is_correct" (by decide) (by simp [answerEntries]) isCorrect
    have answeredAt_eq := get_of_holds holds "answered_at" (by decide) (by simp [answerEntries]) answeredAt
    simp only [answer, read, slot_eq, value_eq, isCorrect_eq, answeredAt_eq, bind, Except.bind]
    rfl
  | false =>
    have value : (needed "value" answerValue).Fails a.value.json := fails_needed fun depth d stands => by
      rw [answerValue_eq fits.value stands, unkeyed]
      rfl
    have checks : Each (fun f v => f.Passes v ∨ f.Fails v) answerFields (answerEntries a) :=
      each_answer (.inl (passes_needed slot)) (.inr value) (.inl (passes_needed isCorrect)) (.inl (passes_needed answeredAt))
    have read := read_mismatch once only stands checks (f := needed "value" answerValue) rfl (by simp [answerEntries, needed]) value
    simp only [answer, read, bind, Except.bind]
    rfl

/-! ## Questions -/

/-- The fields of a question that its kind has. -/
def detailEntries : Details → List (String × Value)
  | .choice q => [("correct_option", q.correct.json), ("options", q.options.json)]
  | .matching q => [("correct_mapping", Placement.json q.key), ("items", .array (q.items.map Labelled.json)),
      ("slots", .array (q.slots.map Labelled.json))]

theorem once_detailEntries (details : Details) : ((detailEntries details).map (·.1)).Nodup := by
  cases details <;> simp [detailEntries]

variable {entries : List (String × Draft)}

theorem singleChoice_eq {q : SingleChoice} (lists : Lists entries depth (detailEntries (.choice q))) :
    singleChoice depth (keyed entries) = .ok q := by
  have options := reads_options q.options
  have correct := reads_choiceName q.correct
  have checks : Each Field.Passes [.needed "options" optionsReader, .needed "correct_option" choiceName] (detailEntries (.choice q)) :=
    each_cons (by simp [needed, detailEntries]) (passes_needed options)
      (each_cons (by simp [needed, detailEntries]) (passes_needed correct) each_nil)
  obtain ⟨seen, read, holds⟩ := exists_recordOf (once_detailEntries _) lists checks
  have options_eq := get_of_holds holds "options" (by decide) (by simp [detailEntries]) options
  have correct_eq := get_of_holds holds "correct_option" (by decide) (by simp [detailEntries]) correct
  simp only [singleChoice, read, options_eq, correct_eq, bind, Except.bind]

theorem each_matching {p : Field → Value → Prop} {q : Matching}
    (items : p (.needed "items" (Reader.list labelled)) (.array (q.items.map Labelled.json)))
    (slots : p (.needed "slots" (Reader.list labelled)) (.array (q.slots.map Labelled.json)))
    (key : p (.needed "correct_mapping" nothing) (Placement.json q.key)) :
    Each p [.needed "items" (Reader.list labelled), .needed "slots" (Reader.list labelled), .needed "correct_mapping" nothing]
      (detailEntries (.matching q)) :=
  each_cons (by simp [needed, detailEntries]) items (each_cons (by simp [needed, detailEntries]) slots
    (each_cons (by simp [needed, detailEntries]) key each_nil))

theorem matching_eq {q : Matching} (fits : q.Fits) (keyFits : Placement.Fits q.key)
    (lists : Lists entries depth (detailEntries (.matching q))) : matching depth (keyed entries) = restored q.key.entries.isEmpty q := by
  have items := reads_list (f := Labelled.json) fun item listed => reads_labelled (fits.items item listed)
  have slots := reads_list (f := Labelled.json) fun slot listed => reads_labelled (fits.slots slot listed)
  by_cases empty : q.key.entries = []
  · have key : (needed "correct_mapping" nothing).Passes (Placement.json q.key) := fun depth d stands => by
      simp only [needed, nothing_of_isEmpty keyFits empty stands]
      rfl
    obtain ⟨seen, read, holds⟩ := exists_recordOf (once_detailEntries _) lists
      (each_matching (passes_needed items) (passes_needed slots) key)
    have items_eq := get_of_holds holds "items" (by decide) (by simp [detailEntries]) items
    have slots_eq := get_of_holds holds "slots" (by decide) (by simp [detailEntries]) slots
    obtain ⟨_, _, correct⟩ := q
    obtain rfl : correct = ∅ := Table.eq_empty_of_entries empty
    simp only [matching, read, items_eq, slots_eq, bind, Except.bind]
    rfl
  · have key : (needed "correct_mapping" nothing).Fails (Placement.json q.key) :=
      fails_needed fun _ _ => nothing_mismatch keyFits empty
    have read := recordOf_mismatch (once_detailEntries _) lists
      (each_matching (.inl (passes_needed items)) (.inl (passes_needed slots)) (.inr key)) (f := needed "correct_mapping" nothing) rfl
      (by simp [needed, detailEntries]) key
    have filled : q.key.entries.isEmpty = false := by simpa using empty
    simp only [matching, read, filled, bind, Except.bind]
    rfl

/-- The fields of a question. -/
def questionEntries (q : Question) : List (String × Value) :=
  ("id", .int q.id) :: ("subject_id", .int q.scope.subject) :: ("level_id", .int q.scope.level) ::
    ("topic_id", Value.orNull .int q.scope.topic) :: ("prompt", .string q.prompt) ::
    q.details.keyField :: q.details.withoutKey.fields

theorem once_questionEntries (q : Question) : ((questionEntries q).map (·.1)).Nodup := by
  obtain ⟨id, scope, prompt, details⟩ := q
  cases details <;> simp [questionEntries, Details.keyField, Details.withoutKey, OpenDetails.fields]

/-- What is left of the fields of a question are those of its kind. -/
theorem rest_questionEntries (q : Question) :
    ((questionEntries q).filter fun f => !known questionFields f.1).filter (fun f => f.1 != "kind") = detailEntries q.details := by
  obtain ⟨id, scope, prompt, details⟩ := q
  cases details <;> rfl

theorem kind_mem_questionEntries (q : Question) :
    ("kind", q.kind.json) ∈ (questionEntries q).filter fun f => !known questionFields f.1 := by
  obtain ⟨id, scope, prompt, details⟩ := q
  cases details <;> simp [questionEntries, Details.keyField, Details.withoutKey, OpenDetails.fields, Question.kind, Details.kind, known,
    questionFields, needed, spare]

theorem question_eq {q : Question} (fits : q.Fits) (stands : d.StandsFor depth q.json) : question depth d = restored q.unkeyed q := by
  have id := reads_integer fits.id
  have subject := reads_integer fits.subject
  have level := reads_integer fits.level
  have topic := reads_optional (f := Value.int) (fun topic here => reads_integer (fits.topic topic here)) fun _ eq => by cases eq
  have prompt := reads_string q.prompt
  have checks : Each Field.Passes questionFields (questionEntries q) :=
    each_cons (by simp [needed, questionEntries]) (passes_needed id) (each_cons (by simp [needed, questionEntries]) (passes_needed subject)
      (each_cons (by simp [needed, questionEntries]) (passes_needed level)
        (each_cons (by simp [spare, questionEntries]) (passes_spare topic)
          (each_cons (by simp [needed, questionEntries]) (passes_needed prompt) each_nil))))
  obtain ⟨seen, rest, read, holds, lists⟩ := exists_recordAndRest (once_questionEntries q) stands checks
  obtain ⟨kindDraft, entries, taken, kindStands, lists⟩ := exists_tag lists (kind_mem_questionEntries q)
  rw [rest_questionEntries] at lists
  have id_eq := get_of_holds holds "id" (by decide) (by simp [questionEntries]) id
  have subject_eq := get_of_holds holds "subject_id" (by decide) (by simp [questionEntries]) subject
  have level_eq := get_of_holds holds "level_id" (by decide) (by simp [questionEntries]) level
  have topic_eq := get?_of_holds holds "topic_id" (by decide) (by simp [questionEntries]) topic
  have prompt_eq := get_of_holds holds "prompt" (by decide) (by simp [questionEntries]) prompt
  have kind_eq := reads_kind q.kind kindStands
  obtain ⟨_, _, _, details⟩ := q
  cases details with
  | choice m =>
    simp only [question, read, taken, show kindTag (depth + 1) kindDraft = .ok .singleChoice from kind_eq, singleChoice_eq lists, id_eq,
      subject_eq, level_eq, topic_eq, prompt_eq, bind, Except.bind, Except.map]
    rfl
  | matching m =>
    obtain ⟨matchingFits, keyFits⟩ := fits.details
    simp only [question, read, taken, show kindTag (depth + 1) kindDraft = .ok .dragDrop from kind_eq,
      matching_eq matchingFits keyFits lists, id_eq, subject_eq, level_eq, topic_eq, prompt_eq, bind, Except.bind, restored]
    cases unkeyed : m.key.entries.isEmpty <;> simp [Question.unkeyed, unkeyed, Except.map]

/-! ## What is printed can be read -/

theorem readable_placement {p : Placement} (fits : p.Fits) (shallow : depth < deepest) : (Placement.json p).Readable depth :=
  Value.readable_ofFields shallow fun f written => by
    obtain ⟨e, listed, rfl⟩ := List.mem_map.1 written
    exact Value.readable_int (fits.slots e listed)

theorem readable_answerValue {v : AnswerValue} (fits : v.Fits) (shallow : depth < deepest) : v.json.Readable depth := by
  cases v with
  | option picked => trivial
  | placement p => exact readable_placement fits shallow

theorem readable_answer {a : Answer} (fits : a.Fits) : a.json.Readable 0 := by
  refine Value.readable_ofFields (by decide) ?_
  simp only [List.forall_mem_cons]
  exact ⟨Value.readable_int fits.slot, readable_answerValue fits.value (by decide), trivial, trivial, fun _ none => by cases none⟩

theorem readable_labelled {ls : List Labelled} (fits : ∀ l ∈ ls, Text.Width.signed64.holds l.id = true) :
    (Value.array (ls.map Labelled.json)).Readable 1 :=
  Value.readable_array (by decide) fun v written => by
    obtain ⟨l, listed, rfl⟩ := List.mem_map.1 written
    refine Value.readable_ofFields (by decide) ?_
    simp only [List.forall_mem_cons]
    exact ⟨Value.readable_int (fits l listed), trivial, fun _ none => by cases none⟩

theorem readable_question {q : Question} (fits : q.Fits) : q.json.Readable 0 := by
  have topic : (Value.orNull .int q.scope.topic).Readable 1 := by
    cases here : q.scope.topic with
    | none => trivial
    | some topic => exact Value.readable_int (fits.topic topic here)
  have parts : ∀ f ∈ q.details.keyField :: q.details.withoutKey.fields, f.2.Readable 1 := by
    obtain ⟨_, _, _, details⟩ := q
    cases details with
    | choice m =>
      have options : m.options.json.Readable 1 := Value.readable_array (by decide) fun v written => by
        obtain ⟨text, -, rfl⟩ := List.mem_map.1 written
        trivial
      simp only [Details.keyField, Details.withoutKey, OpenDetails.fields, List.forall_mem_cons]
      exact ⟨trivial, trivial, options, fun _ none => by cases none⟩
    | matching m =>
      obtain ⟨matchingFits, keyFits⟩ := fits.details
      simp only [Details.keyField, Details.withoutKey, OpenDetails.fields, List.forall_mem_cons]
      exact ⟨readable_placement keyFits (by decide), trivial, readable_labelled matchingFits.items, readable_labelled matchingFits.slots,
        fun _ none => by cases none⟩
  refine Value.readable_ofFields (by decide) ?_
  simp only [List.forall_mem_cons] at parts ⊢
  exact ⟨Value.readable_int fits.id, Value.readable_int fits.subject, Value.readable_int fits.level, topic, trivial, parts⟩

/-! ## What is stored is read -/

/-- **What is stored is read back** as it was, whatever text it is stored as, just if no placement in it has entries; it is refused
for its shape otherwise. -/
theorem read_stored {v : AnswerValue} {a : Answer} {q : Question} (valueFits : v.Fits) (answerFits : a.Fits) (questionFits : q.Fits) :
    (Writes v.json.print v.json ∧ ∀ text, Writes text v.json → Json.read answerValue text = restored v.unkeyed v) ∧
    (Writes a.json.print a.json ∧ ∀ text, Writes text a.json → Json.read answer text = restored a.value.unkeyed a) ∧
    Writes q.json.print q.json ∧ ∀ text, Writes text q.json → Json.read question text = restored q.unkeyed q := by
  refine ⟨⟨?_, fun text writes => ?_⟩, ⟨?_, fun text writes => ?_⟩, ?_, fun text writes => ?_⟩
  · exact Value.writes_print (readable_answerValue valueFits (by decide))
  · exact writes.read_eq fun _ => answerValue_eq valueFits
  · exact Value.writes_print (readable_answer answerFits)
  · exact writes.read_eq fun _ => answer_eq answerFits
  · exact Value.writes_print (readable_question questionFits)
  · exact writes.read_eq fun _ => question_eq questionFits

/-- Two items that go to two slots. -/
def crossing : Question := ⟨7, ⟨1, 2, none⟩, "Match", .matching ⟨[⟨1, "a"⟩, ⟨2, "b"⟩], [⟨11, "A"⟩, ⟨12, "B"⟩], .ofList [(1, 12), (2, 11)]⟩⟩

/-- The right answer to it. -/
def crossed : Answer := ⟨3, .placement (.ofList [(1, 12), (2, 11)]), true, ⟨1767225600000000000, false⟩⟩

/-- An answer to a choice. -/
def picked : Answer := ⟨3, .option .b, true, ⟨1767225600000000000, false⟩⟩

theorem fits_crossing : crossing.Fits := ⟨by decide, by decide, by decide, by decide, ⟨by decide, by decide⟩, ⟨by decide, by decide⟩⟩

theorem fits_crossed : crossed.Fits := ⟨by decide, ⟨by decide, by decide⟩, ⟨by decide, by decide⟩⟩

theorem read_stored_of_key : Json.read answerValue crossed.value.json.print = .error .mismatch ∧
    Json.read answer picked.json.print = .ok picked ∧ Json.read question crossing.json.print = .error .mismatch := by
  have fits_picked : picked.Fits := ⟨by decide, trivial, fits_crossed.answeredAt⟩
  obtain ⟨⟨writesValue, value⟩, ⟨writesAnswer, answer⟩, writesQuestion, question⟩ := read_stored fits_crossed.value fits_picked fits_crossing
  exact ⟨(value _ writesValue).trans rfl, (answer _ writesAnswer).trans rfl, (question _ writesQuestion).trans rfl⟩

/-- No kind of stored value is always read back. -/
theorem not_read_stored_always : (¬∀ v : AnswerValue, v.Fits → Json.read answerValue v.json.print = .ok v) ∧
    (¬∀ a : Answer, a.Fits → Json.read answer a.json.print = .ok a) ∧
    ¬∀ q : Question, q.Fits → Json.read question q.json.print = .ok q := by
  refine ⟨fun always => ?_, fun always => ?_, fun always => ?_⟩
  · have writes : Writes crossed.value.json.print crossed.value.json :=
      Value.writes_print (readable_answerValue fits_crossed.value (by decide))
    have refused := writes.read_eq fun _ => answerValue_eq fits_crossed.value
    cases (always _ fits_crossed.value).symm.trans refused
  · have refused := (Value.writes_print (readable_answer fits_crossed)).read_eq fun _ => answer_eq fits_crossed
    cases (always _ fits_crossed).symm.trans refused
  · have refused := (Value.writes_print (readable_question fits_crossing)).read_eq fun _ => question_eq fits_crossing
    cases (always _ fits_crossing).symm.trans refused

end Wire

end Proctor
