import Proctor.Question.Kind
import Proctor.Table

/-!
# Questions

A question belongs to a subject, a level and perhaps a topic. A choice has four options, one
of them right. A matching has items and slots and a key that says which slot each item goes
to; ids may repeat in both lists, and the key may speak of other ids. `Question.content` is
what may be seen without the key.
-/

set_option autoImplicit false

namespace Proctor

/-- The texts of the four options. -/
structure Options where
  a : String
  b : String
  c : String
  d : String
deriving DecidableEq

namespace Options

def text (o : Options) : Choice → String
  | .a => o.a
  | .b => o.b
  | .c => o.c
  | .d => o.d

def toList (o : Options) : List String := [o.a, o.b, o.c, o.d]

/-- The options of a list of exactly four texts. -/
def ofList? : List String → Option Options
  | [a, b, c, d] => some ⟨a, b, c, d⟩
  | _ => none

theorem ofList?_toList (o : Options) : ofList? o.toList = some o := rfl

theorem getElem?_toList (o : Options) (option : Choice) : o.toList[option.index.val]? = some (o.text option) := by
  cases option <;> rfl

end Options

/-- An item or a slot of a matching. -/
structure Labelled where
  id : Int
  label : String
deriving DecidableEq

/-- Says for item ids which slot id they are placed in. -/
abbrev Placement := Table Int Int

structure SingleChoice where
  options : Options
  correct : Choice
deriving DecidableEq

structure Matching where
  items : List Labelled
  slots : List Labelled
  key : Placement
deriving DecidableEq

inductive Details where
  | choice (q : SingleChoice)
  | matching (q : Matching)
deriving DecidableEq

/-- The details of a question without its key. -/
inductive OpenDetails where
  | choice (options : Options)
  | matching (items slots : List Labelled)
deriving DecidableEq

def Details.kind : Details → Kind
  | .choice _ => .singleChoice
  | .matching _ => .dragDrop

def OpenDetails.kind : OpenDetails → Kind
  | .choice _ => .singleChoice
  | .matching _ _ => .dragDrop

def Details.withoutKey : Details → OpenDetails
  | .choice q => .choice q.options
  | .matching q => .matching q.items q.slots

theorem Details.kind_withoutKey (d : Details) : d.withoutKey.kind = d.kind := by
  cases d <;> rfl

/-- Where questions are drawn from: a level of a subject, and one topic or all of them. -/
structure Scope where
  subject : Int
  level : Int
  topic : Option Int
deriving DecidableEq

structure Question where
  id : Int
  /-- The subject, level and topic that the question belongs to. -/
  scope : Scope
  prompt : String
  details : Details
deriving DecidableEq

/-- What a student may see of a question. -/
structure Content where
  question : Int
  prompt : String
  details : OpenDetails
deriving DecidableEq

namespace Question

def kind (q : Question) : Kind := q.details.kind

def content (q : Question) : Content := ⟨q.id, q.prompt, q.details.withoutKey⟩

/-- The question is eligible in a scope; a scope without a topic takes all topics. -/
def eligible (q : Question) (s : Scope) : Bool :=
  q.scope.subject == s.subject && q.scope.level == s.level && (s.topic.isNone || q.scope.topic == s.topic)

end Question

end Proctor
