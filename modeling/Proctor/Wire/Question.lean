import Proctor.Question.Basic
import Proctor.Wire.Buffered

/-!
# Questions as JSON

A question is one object: its own fields, the name of its kind, and the fields of this kind.
What is read back is what was written, except for keys: a key with entries is not read.
-/

set_option autoImplicit false

namespace Proctor

open Json

namespace Wire

def optionsReader : Reader Options := fun depth d => do
  match Options.ofList? (← Reader.list Reader.string depth d) with
  | some o => .ok o
  | none => .error .mismatch

end Wire

def Kind.json (k : Kind) : Value := .string k.name

def Choice.json (option : Choice) : Value := .string option.name

def Options.json (o : Options) : Value := .array (o.toList.map .string)

def Labelled.json (l : Labelled) : Value := .ofFields [("id", .int l.id), ("label", .string l.label)]

/-- An object from the keys to the values, both as numbers. -/
def Placement.json (p : Placement) : Value :=
  .ofFields (p.entries.map fun e => (Text.Integer.text e.1, .int e.2))

def OpenDetails.fields : OpenDetails → List (String × Value)
  | .choice options => [("kind", Kind.singleChoice.json), ("options", options.json)]
  | .matching items slots =>
    [("kind", Kind.dragDrop.json), ("items", .array (items.map Labelled.json)),
      ("slots", .array (slots.map Labelled.json))]

def Details.keyField : Details → String × Value
  | .choice q => ("correct_option", q.correct.json)
  | .matching q => ("correct_mapping", Placement.json q.key)

def Content.json (c : Content) : Value :=
  .ofFields (("question_id", .int c.question) :: ("prompt", .string c.prompt) :: c.details.fields)

def Question.json (q : Question) : Value :=
  .ofFields
    (("id", .int q.id) :: ("subject_id", .int q.scope.subject) :: ("level_id", .int q.scope.level) ::
      ("topic_id", Value.orNull .int q.scope.topic) :: ("prompt", .string q.prompt) ::
      q.details.keyField :: q.details.withoutKey.fields)

namespace Wire

def labelledFields : List Field :=
  [.needed "id" (Reader.integer .signed64), .needed "label" Reader.string]

def labelled : Reader Labelled := fun depth d => do
  let r ← Record.read labelledFields depth d
  .ok ⟨← r.get "id" (Reader.integer .signed64), ← r.get "label" Reader.string⟩

/-- A kind, by its name or its position. -/
def kindTag : Reader Kind := fun depth d =>
  match d with
  | .number _ => do
    match ← Reader.integer .unsigned64 depth d with
    | 0 => .ok .singleChoice
    | 1 => .ok .dragDrop
    | _ => .error .mismatch
  | d => Reader.text Kind.ofName? depth d

/-- The right one among the options of a question. -/
def choiceName : Reader Choice := innerName Choice.ofName?

def singleChoice (depth : Nat) (entries : List (Option String × Draft)) : Except Fault SingleChoice := do
  let r ← recordOf [.needed "options" optionsReader, .needed "correct_option" choiceName] depth entries
  .ok ⟨← r.get "options" optionsReader, ← r.get "correct_option" choiceName⟩

def matching (depth : Nat) (entries : List (Option String × Draft)) : Except Fault Matching := do
  let r ← recordOf
    [.needed "items" (Reader.list labelled), .needed "slots" (Reader.list labelled),
      .needed "correct_mapping" nothing] depth entries
  .ok ⟨← r.get "items" (Reader.list labelled), ← r.get "slots" (Reader.list labelled), ∅⟩

def openMatching (depth : Nat) (entries : List (Option String × Draft)) : Except Fault OpenDetails := do
  let r ← recordOf [.needed "items" (Reader.list labelled), .needed "slots" (Reader.list labelled)] depth entries
  .ok (.matching (← r.get "items" (Reader.list labelled)) (← r.get "slots" (Reader.list labelled)))

def openChoice (depth : Nat) (entries : List (Option String × Draft)) : Except Fault OpenDetails := do
  let r ← recordOf [.needed "options" optionsReader] depth entries
  .ok (.choice (← r.get "options" optionsReader))

def questionFields : List Field :=
  [.needed "id" (Reader.integer .signed64), .needed "subject_id" (Reader.integer .signed64),
    .needed "level_id" (Reader.integer .signed64), .spare "topic_id" (Reader.integer .signed64),
    .needed "prompt" Reader.string]

def question : Reader Question := fun depth d => do
  let (r, rest) ← recordAndRest questionFields depth d
  let (kind, rest) ← tag "kind" rest
  let details ← match ← kindTag r.depth kind with
    | .singleChoice => (singleChoice r.depth rest).map Details.choice
    | .dragDrop => (matching r.depth rest).map Details.matching
  let id := Reader.integer .signed64
  .ok ⟨← r.get "id" id, ⟨← r.get "subject_id" id, ← r.get "level_id" id, ← r.get? "topic_id" id⟩,
    ← r.get "prompt" Reader.string, details⟩

def contentFields : List Field :=
  [.needed "question_id" (Reader.integer .signed64), .needed "prompt" Reader.string]

def content : Reader Content := fun depth d => do
  let (r, rest) ← recordAndRest contentFields depth d
  let (kind, rest) ← tag "kind" rest
  let details ← match ← kindTag r.depth kind with
    | .singleChoice => openChoice r.depth rest
    | .dragDrop => openMatching r.depth rest
  .ok ⟨← r.get "question_id" (Reader.integer .signed64), ← r.get "prompt" Reader.string, details⟩

end Wire

end Proctor
