import Proctor.Json.Draft

/-!
# Values out of JSON text

A reader walks a draft in reading order and stops at the first fault: text that is no JSON
(`malformed`), or a value of the wrong shape (`mismatch`). Values that nobody wants are
skipped, and then only their structure counts: neither their nesting nor the size of their
numbers does. Elsewhere brackets nest at most 127 deep.
-/

set_option autoImplicit false

namespace Proctor.Json

/-- Why a text cannot be read. -/
inductive Fault where
  | malformed
  | mismatch
deriving DecidableEq

/-- The depth of brackets that is still read. -/
def deepest : Nat := 127

namespace Draft

mutual

/-- The draft is well formed; its numbers, its nesting and its surrogates are not looked at. -/
def sound : Draft → Bool
  | .array items closed => soundItems items && closed
  | .object fields closed => soundFields fields && closed
  | .broken => false
  | _ => true

def soundItems : List Draft → Bool
  | [] => true
  | d :: rest => sound d && soundItems rest

def soundFields : List (Option String × Draft) → Bool
  | [] => true
  | (_, d) :: rest => sound d && soundFields rest

end

mutual

/-- The draft as a value, `depth` brackets deep. -/
def toValue (depth : Nat) : Draft → Except Fault Value
  | .null => .ok .null
  | .bool b => .ok (.bool b)
  | .number n =>
    match n.number? with
    | some n => .ok (.number n)
    | none => .error .malformed
  | .string (.ok s) => .ok (.string s)
  | .array items closed =>
    if depth < deepest then do
      let vs ← toValues (depth + 1) items
      if closed then .ok (.array vs) else .error .malformed
    else .error .malformed
  | .object fields closed =>
    if depth < deepest then do
      let vs ← toFields (depth + 1) fields
      if closed then .ok (.ofFields vs) else .error .malformed
    else .error .malformed
  | .string (.error _) => .error .malformed
  | .broken => .error .malformed

def toValues (depth : Nat) : List Draft → Except Fault (List Value)
  | [] => .ok []
  | d :: rest => do
    let v ← toValue depth d
    let vs ← toValues depth rest
    .ok (v :: vs)

def toFields (depth : Nat) : List (Option String × Draft) → Except Fault (List (String × Value))
  | [] => .ok []
  | (none, _) :: _ => .error .malformed
  | (some key, d) :: rest => do
    let v ← toValue depth d
    let vs ← toFields depth rest
    .ok ((key, v) :: vs)

end

/-- The fault of a draft where a value of another kind is wanted. -/
def wrongKind : Draft → Fault
  | .broken => .malformed
  | .string (.error _) => .malformed
  | .number n => if n.number?.isNone then .malformed else .mismatch
  | _ => .mismatch

end Draft

/-- Reads a value of type `α` from a draft that lies some number of brackets deep. -/
abbrev Reader (α : Type) := Nat → Draft → Except Fault α

namespace Reader

variable {α : Type}

/-- Any value as it stands. -/
def plain : Reader Value := fun depth d => d.toValue depth

def integer (w : Text.Width) : Reader Int := fun _ d =>
  match d with
  | .number n =>
    match n.number? with
    | some (.whole k) => if w.holds k then .ok k else .error .mismatch
    | some (.double _) => .error .mismatch
    | none => .error .malformed
  | d => .error d.wrongKind

def double : Reader Float := fun _ d =>
  match d with
  | .number n =>
    match n.number? with
    | some (.whole k) => .ok (Float.ofInt k)
    | some (.double x) => .ok x
    | none => .error .malformed
  | d => .error d.wrongKind

def bool : Reader Bool := fun _ d =>
  match d with
  | .bool b => .ok b
  | d => .error d.wrongKind

def string : Reader String := fun _ d =>
  match d with
  | .string (.ok s) => .ok s
  | d => .error d.wrongKind

/-- A text that `f` accepts. -/
def text (f : String → Option α) : Reader α := fun depth d => do
  match f (← string depth d) with
  | some a => .ok a
  | none => .error .mismatch

/-- `null`, or what `r` reads. -/
def optional (r : Reader α) : Reader (Option α) := fun depth d =>
  match d with
  | .null => .ok none
  | d => (r depth d).map some

/-- An array of what `r` reads. -/
def list (r : Reader α) : Reader (List α) := fun depth d =>
  match d with
  | .array items closed =>
    if depth < deepest then do
      let as ← items.mapM (r (depth + 1))
      if closed then .ok as else .error .malformed
    else .error .malformed
  | d => .error d.wrongKind

/-- One of some names: the name itself, or an object whose one field has this name and the value `null`. -/
def name (f : String → Option α) : Reader α := fun depth d =>
  match d with
  | .string (.ok s) => (f s).elim (.error .mismatch) .ok
  | .object ((some s, v) :: rest) closed =>
    if depth < deepest then
      match f s, v with
      | none, _ => .error .mismatch
      | some a, .null => if rest.isEmpty ∧ closed then .ok a else .error .malformed
      | some _, v => .error v.wrongKind
    else .error .malformed
  | _ => .error .malformed

end Reader

/-- A field of a record: its name, whether it may be missing, and what it has to be. -/
structure Field where
  name : String
  optional : Bool
  check : Nat → Draft → Except Fault Unit

namespace Field

variable {α : Type}

def needed (name : String) (r : Reader α) : Field := ⟨name, false, fun depth d => (r depth d).map fun _ => ()⟩

/-- A field that may be missing or `null`. -/
def spare (name : String) (r : Reader α) : Field :=
  ⟨name, true, fun depth d => (Reader.optional r depth d).map fun _ => ()⟩

end Field

/-- The drafts of the fields that are present, all of them checked, and how deep they lie. -/
structure Record where
  depth : Nat
  fields : List (String × Draft)

namespace Record

variable {α : Type}

def draft? (r : Record) (name : String) : Option Draft := (r.fields.find? (·.1 == name)).map (·.2)

def get (r : Record) (name : String) (reader : Reader α) : Except Fault α :=
  match r.draft? name with
  | some d => reader r.depth d
  | none => .error .mismatch

def get? (r : Record) (name : String) (reader : Reader α) : Except Fault (Option α) :=
  match r.draft? name with
  | some d => Reader.optional reader r.depth d
  | none => .ok none

/-- Walks the fields of an object; `other` treats the fields that the record does not have. -/
def walk (fields : List Field) (depth : Nat) (other : Draft → Except Fault Unit) (seen : List (String × Draft)) :
    List (Option String × Draft) → Except Fault (List (String × Draft))
  | [] => .ok seen
  | (none, _) :: _ => .error .malformed
  | (some key, d) :: rest =>
    match fields.find? (·.name == key) with
    | some f =>
      if seen.any (·.1 == key) then .error .mismatch
      else do
        f.check depth d
        walk fields depth other ((key, d) :: seen) rest
    | none => do
      other d
      walk fields depth other seen rest

/-- Checks that no field is missing that has to be there. -/
def complete (fields : List Field) (seen : List (String × Draft)) : Except Fault Unit :=
  if fields.all fun f => f.optional || seen.any (·.1 == f.name) then .ok () else .error .mismatch

/-- Reads the items of an array as the fields, in order. -/
def inOrder (depth : Nat) (closed : Bool) : List Field → List Draft → Except Fault (List (String × Draft))
  | [], items => if items.isEmpty ∧ closed then .ok [] else .error .malformed
  | _ :: _, [] => .error (if closed then .mismatch else .malformed)
  | f :: fields, d :: items => do
    f.check depth d
    let rest ← inOrder depth closed fields items
    .ok ((f.name, d) :: rest)

def skipped (d : Draft) : Except Fault Unit := if d.sound then .ok () else .error .malformed

/-- Reads an object with these fields; fields beyond them are skipped. -/
def readObject (fields : List Field) : Reader Record := fun depth d =>
  match d with
  | .object entries closed =>
    if depth < deepest then do
      let seen ← walk fields (depth + 1) skipped [] entries
      if closed then do
        complete fields seen
        .ok ⟨depth + 1, seen⟩
      else .error .malformed
    else .error .malformed
  | d => .error d.wrongKind

/-- Reads a record from an object, or from an array that lists all fields in order. -/
def read (fields : List Field) : Reader Record := fun depth d =>
  match d with
  | .array items closed =>
    if depth < deepest then do
      let seen ← inOrder (depth + 1) closed fields items
      .ok ⟨depth + 1, seen⟩
    else .error .malformed
  | d => readObject fields depth d

end Record

/-- Reads the value that a text begins with; what follows it does not matter. -/
def readStart {α : Type} (r : Reader α) (text : String) : Except Fault α := r 0 (Draft.read (Text.symbols text)).1

/-- Reads all symbols; a well-shaped value that more text follows is malformed. -/
def readSymbols {α : Type} (r : Reader α) (cs : List Text.Symbol) : Except Fault α := do
  let (d, complete) := Draft.read cs
  let a ← r 0 d
  if complete then .ok a else .error .malformed

/-- Reads a whole text. -/
def read {α : Type} (r : Reader α) (text : String) : Except Fault α := readSymbols r (Text.symbols text)

end Proctor.Json
