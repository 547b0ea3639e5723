import Proctor.Answer
import Proctor.Error
import Proctor.Json.Value

/-!
# Reading and grading answers

`Details.accept` reads an answer to a question out of a JSON value. A choice is a text that
names an option. A matching is an object from item ids to slot ids, whose fields are checked
one by one in the order of their keys: the key, the slot, both ids, and that no field before
it placed the same item. A wrong answer is accepted and graded by `Details.grades`: a
matching has to be placed completely and as the key says.
-/

set_option autoImplicit false

namespace Proctor

/-- One placed item as a review shows it; a slot that the question does not have has no label. -/
structure Placed where
  item : Labelled
  slot : Int
  label : Option String
deriving DecidableEq

/-- An answer with its labels. -/
inductive Shown where
  | option (option : Choice) (text : String)
  | placements (placed : List Placed)
deriving DecidableEq

namespace SingleChoice

def accept (_ : SingleChoice) (payload : Json.Value) : Except InputFault AnswerValue :=
  match payload with
  | .string s =>
    match Choice.read s with
    | .ok option => .ok (.option option)
    | .error normal => .error (.unknownChoice normal)
  | _ => .error .choiceWanted

def grades (q : SingleChoice) : AnswerValue → Bool
  | .option option => option == q.correct
  | .placement _ => false

def solution (q : SingleChoice) : AnswerValue := .option q.correct

def present (q : SingleChoice) : AnswerValue → Option Shown
  | .option option => some (.option option (q.options.text option))
  | .placement _ => none

end SingleChoice

namespace Matching

def hasItem (q : Matching) (id : Int) : Bool := q.items.any (·.id == id)

/-- The label of the first slot with this id. -/
def slotLabel? (q : Matching) (id : Int) : Option String := (q.slots.find? (·.id == id)).map (·.label)

/-- The item id that a key names, without regard to blanks around it. -/
def itemOfKey? (key : String) : Option Int :=
  (Text.Integer.read .signed64 (Text.trim key.toList)).toOption

/-- Adds one field of an answer to the placement of the fields before it. -/
def place (q : Matching) (p : Placement) (field : String × Json.Value) : Except InputFault Placement :=
  match itemOfKey? field.1 with
  | none => .error (.badItem field.1)
  | some item =>
    match field.2.int64? with
    | none => .error (.slotNotWhole item)
    | some slot =>
      if !q.hasItem item then .error (.unknownItem item)
      else if (q.slotLabel? slot).isNone then .error (.unknownSlot slot)
      else if p.contains item then .error (.placedTwice item)
      else .ok (p.insert item slot)

def accept (q : Matching) (payload : Json.Value) : Except InputFault AnswerValue :=
  match payload with
  | .object fields => (fields.foldlM q.place ∅).map .placement
  | _ => .error .placementsWanted

/-- The item is placed, and where the key places it. -/
def rightly (q : Matching) (p : Placement) (item : Labelled) : Bool :=
  match p.get? item.id, q.key.get? item.id with
  | some given, some expected => given == expected
  | _, _ => false

def grades (q : Matching) : AnswerValue → Bool
  | .option _ => false
  | .placement p => p.size == q.items.length && q.items.all (q.rightly p)

def solution (q : Matching) : AnswerValue := .placement q.key

/-- The placed items, in the order of the question. -/
def placements (q : Matching) (p : Placement) : List Placed :=
  q.items.filterMap fun item => (p.get? item.id).map fun slot => ⟨item, slot, q.slotLabel? slot⟩

def present (q : Matching) : AnswerValue → Option Shown
  | .option _ => none
  | .placement p => some (.placements (q.placements p))

end Matching

namespace Details

/-- Reads an answer to the question. -/
def accept : Details → Json.Value → Except InputFault AnswerValue
  | .choice q => q.accept
  | .matching q => q.accept

/-- The answer is right. -/
def grades : Details → AnswerValue → Bool
  | .choice q => q.grades
  | .matching q => q.grades

/-- The answer of the key. -/
def solution : Details → AnswerValue
  | .choice q => q.solution
  | .matching q => q.solution

/-- The answer with its labels; an answer of the other kind cannot be shown. -/
def present : Details → AnswerValue → Option Shown
  | .choice q => q.present
  | .matching q => q.present

end Details

/-- The details of a question, if they are of the kind that its slot is tagged with. -/
def Question.detailsFor (q : Question) (slot : Kind) : Except Error Details :=
  if q.kind = slot then .ok q.details else .error (.internal (.kindMismatch q.id q.kind slot))

end Proctor
