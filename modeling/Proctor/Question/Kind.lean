import Proctor.Text.Blank

/-!
# Kinds of questions and the options of a choice

A question is either a choice of one of four options or a matching of items to slots. A choice
is read without regard to blanks around it and to the case of its ASCII letter.
-/

set_option autoImplicit false

namespace Proctor

inductive Kind where
  | singleChoice
  | dragDrop
deriving DecidableEq

namespace Kind

def name : Kind → String
  | .singleChoice => "single_choice"
  | .dragDrop => "drag_drop"

def ofName? : String → Option Kind
  | "single_choice" => some .singleChoice
  | "drag_drop" => some .dragDrop
  | _ => none

/-- What is said of a text that names no kind. -/
def unknown (text : String) : String := "unknown question kind '" ++ text ++ "'"

theorem ofName?_name (k : Kind) : ofName? k.name = some k := by
  cases k <;> rfl

end Kind

/-- One of the four options of a single-choice question. -/
inductive Choice where
  | a
  | b
  | c
  | d
deriving DecidableEq

namespace Choice

def name : Choice → String
  | .a => "A"
  | .b => "B"
  | .c => "C"
  | .d => "D"

def ofName? : String → Option Choice
  | "A" => some .a
  | "B" => some .b
  | "C" => some .c
  | "D" => some .d
  | _ => none

/-- The position of the option among the four. -/
def index : Choice → Fin 4
  | .a => 0
  | .b => 1
  | .c => 2
  | .d => 3

/-- The text without blanks around it, its ASCII letters in upper case. -/
def normal (text : String) : String := String.ofList ((Text.trim text.toList).map Char.toUpper)

/-- Reads an option; a text that is none is given back in normal form. -/
def read (text : String) : Except String Choice :=
  match ofName? (normal text) with
  | some option => .ok option
  | none => .error (normal text)

/-- What is said of a text whose normal form is no option. -/
def unknown (normal : String) : String := "'" ++ normal ++ "' is not one of A, B, C, D"

theorem ofName?_name (option : Choice) : ofName? option.name = some option := by
  cases option <;> rfl

theorem read_name (option : Choice) : read option.name = .ok option := by
  cases option <;> rfl

end Choice

end Proctor
