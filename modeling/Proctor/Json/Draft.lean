import Proctor.Json.Numeral
import Proctor.Text.Percent
import Proctor.Text.Utf8

/-!
# JSON text, read as far as it is well formed

`Draft.read` turns a text into a tree that records where it stops being JSON: a broken value,
an array or object that is not closed, a string with half of a surrogate pair. Whoever walks
the tree in reading order meets the first fault of the text in its place, among the faults of
the values themselves. Duplicate keys are kept; numbers stay numerals. The text is a list of
symbols: bytes that are no characters may stand in a string, which then has no text.
-/

set_option autoImplicit false

namespace Proctor.Json

open Text (Symbol)

/-- Where it shows that a string has no text. -/
inductive Flaw where
  /-- Before its closing quote. -/
  | early
  /-- At its closing quote. -/
  | late
deriving DecidableEq

inductive Draft where
  | null
  | bool (b : Bool)
  | number (n : Numeral)
  /-- A string; without text if it holds half of a surrogate pair or a byte that is no character. -/
  | string (s : Except Flaw String)
  /-- An array, and whether it is closed. -/
  | array (items : List Draft) (closed : Bool)
  /-- An object, and whether it is closed. -/
  | object (fields : List (Option String × Draft)) (closed : Bool)
  /-- Text that is no JSON from here on. -/
  | broken

namespace Draft

def isSpace (c : Symbol) : Bool := c == ' ' || c == '\n' || c == '\t' || c == '\r'

def skipSpace (cs : List Symbol) : List Symbol := cs.dropWhile isSpace

/-- The text after `word`, if it begins with it. -/
def after? : List Char → List Symbol → Option (List Symbol)
  | [], cs => some cs
  | w :: word, c :: cs => if w = c then after? word cs else none
  | _ :: _, [] => none

/-- Splits off the leading digits. -/
def digits : List Symbol → List Nat × List Symbol
  | [] => ([], [])
  | c :: cs =>
    match c.bind Text.digit? with
    | some d => let (ds, rest) := digits cs; (d :: ds, rest)
    | none => ([], c :: cs)

/-- Reads the exponent of a numeral, if there is one; an `e` without digits is a fault. -/
def exponent (cs : List Symbol) : Option (Option (Bool × List Nat) × List Symbol) :=
  match cs with
  | c :: rest =>
    if c = 'e' ∨ c = 'E' then
      let (down, rest) := match rest with
        | some '+' :: r => (false, r)
        | some '-' :: r => (true, r)
        | r => (false, r)
      match digits rest with
      | ([], _) => none
      | (ds, rest) => some (some (down, ds), rest)
    else some (none, cs)
  | [] => some (none, [])

/-- Reads a numeral after its sign. -/
def numeral (negative : Bool) (cs : List Symbol) : Option (Numeral × List Symbol) :=
  match digits cs with
  | ([], _) => none
  | (0 :: _ :: _, _) => none
  | (whole, some '.' :: rest) =>
    match digits rest with
    | ([], _) => none
    | (fraction, rest) => (exponent rest).map fun (e, rest) => (⟨negative, whole, some fraction, e⟩, rest)
  | (whole, rest) => (exponent rest).map fun (e, rest) => (⟨negative, whole, none, e⟩, rest)

/-- Reads four hexadecimal digits. -/
def hexQuad : List Symbol → Option (Nat × List Symbol)
  | some a :: some b :: some c :: some d :: rest => do
    let x ← Text.Percent.hexDigit? a
    let y ← Text.Percent.hexDigit? b
    let z ← Text.Percent.hexDigit? c
    let w ← Text.Percent.hexDigit? d
    some (x * 4096 + y * 256 + z * 16 + w, rest)
  | _ => none

/-- The character of a one-letter escape. -/
def escape? : Char → Option Char
  | '"' => some '"'
  | '\\' => some '\\'
  | '/' => some '/'
  | 'b' => some '\x08'
  | 'f' => some '\x0c'
  | 'n' => some '\n'
  | 'r' => some '\r'
  | 't' => some '\t'
  | _ => none

/-- What a string is made of. -/
inductive Piece where
  | char (c : Char)
  /-- An escape with half of a surrogate pair. -/
  | half (code : Nat)
  /-- A byte that is no character. -/
  | stray

/-- Reads a string after its opening quote; nothing if it is not a string at all. -/
def pieces : Nat → List Symbol → Option (List Piece × List Symbol)
  | 0, _ => none
  | _ + 1, [] => none
  | _ + 1, some '"' :: rest => some ([], rest)
  | fuel + 1, some '\\' :: some 'u' :: rest => do
    let (code, rest) ← hexQuad rest
    let (ps, rest) ← pieces fuel rest
    some ((if 0xD800 ≤ code ∧ code < 0xE000 then .half code else .char (Char.ofNat code)) :: ps, rest)
  | fuel + 1, some '\\' :: some c :: rest => do
    let c ← escape? c
    let (ps, rest) ← pieces fuel rest
    some (.char c :: ps, rest)
  | fuel + 1, some c :: rest =>
    if c.toNat < 0x20 ∨ c = '\\' then none else do
      let (ps, rest) ← pieces fuel rest
      some (.char c :: ps, rest)
  | fuel + 1, none :: rest => do
    let (ps, rest) ← pieces fuel rest
    some (.stray :: ps, rest)

/-- The half of a surrogate pair that comes first. -/
def isHigh (code : Nat) : Bool := code < 0xDC00

/-- Joins surrogate pairs. A half without its partner shows at once, or at the closing quote if
only that follows a first half; a byte that is no character shows at the closing quote. -/
def join : List Piece → Except Flaw (List Char)
  | [] => .ok []
  | .char c :: rest => (join rest).map (c :: ·)
  | .stray :: rest =>
    match join rest with
    | .error .early => .error .early
    | _ => .error .late
  | .half high :: .half low :: rest =>
    if isHigh high ∧ ¬isHigh low then
      (join rest).map (Char.ofNat (0x10000 + (high - 0xD800) * 0x400 + (low - 0xDC00)) :: ·)
    else .error .early
  | [.half code] => .error (if isHigh code then .late else .early)
  | .half _ :: _ => .error .early

/-- Reads a string after its opening quote. -/
def text (cs : List Symbol) : Option (Except Flaw String × List Symbol) :=
  (pieces (cs.length + 1) cs).map fun (ps, rest) => ((join ps).map String.ofList, rest)

mutual

/-- Reads one value; `fuel` bounds the number of values, items and fields. -/
def value (fuel : Nat) (cs : List Symbol) : Draft × List Symbol :=
  match fuel with
  | 0 => (.broken, [])
  | fuel + 1 =>
    match skipSpace cs with
    | some '"' :: rest =>
      match text rest with
      | some (s, rest) => (.string s, rest)
      | none => (.broken, [])
    | some '[' :: rest =>
      let (items, closed, rest) := elements fuel true rest
      (.array items closed, rest)
    | some '\x7b' :: rest =>
      let (fields, closed, rest) := members fuel true rest
      (.object fields closed, rest)
    | some '-' :: rest =>
      match numeral true rest with
      | some (n, rest) => (.number n, rest)
      | none => (.broken, [])
    | cs =>
      match numeral false cs, after? "null".toList cs, after? "true".toList cs, after? "false".toList cs with
      | some (n, rest), _, _, _ => (.number n, rest)
      | none, some rest, _, _ => (.null, rest)
      | none, none, some rest, _ => (.bool true, rest)
      | none, none, none, some rest => (.bool false, rest)
      | none, none, none, none => (.broken, [])

/-- Reads items up to the closing bracket. -/
def elements (fuel : Nat) (first : Bool) (cs : List Symbol) : List Draft × Bool × List Symbol :=
  match fuel with
  | 0 => ([], false, [])
  | fuel + 1 =>
    match skipSpace cs with
    | some ']' :: rest => ([], true, rest)
    | some ',' :: rest => if first then ([.broken], false, []) else
      match skipSpace rest with
      | some ']' :: _ => ([], false, [])
      | [] => ([], false, [])
      | rest => item fuel rest
    | [] => ([], false, [])
    | cs => if first then item fuel cs else ([], false, [])

/-- Reads an item and those after it. -/
def item (fuel : Nat) (cs : List Symbol) : List Draft × Bool × List Symbol :=
  match fuel with
  | 0 => ([], false, [])
  | fuel + 1 =>
    match value fuel cs with
    | (.broken, _) => ([.broken], false, [])
    | (d, rest) =>
      let (ds, closed, rest) := elements fuel false rest
      (d :: ds, closed, rest)

/-- Reads fields up to the closing brace. -/
def members (fuel : Nat) (first : Bool) (cs : List Symbol) : List (Option String × Draft) × Bool × List Symbol :=
  match fuel with
  | 0 => ([], false, [])
  | fuel + 1 =>
    match skipSpace cs with
    | some '\x7d' :: rest => ([], true, rest)
    | some ',' :: rest => if first then ([], false, []) else member fuel (skipSpace rest)
    | cs => if first then member fuel cs else ([], false, [])

/-- Reads a field and those after it. -/
def member (fuel : Nat) (cs : List Symbol) : List (Option String × Draft) × Bool × List Symbol :=
  match fuel with
  | 0 => ([], false, [])
  | fuel + 1 =>
    match cs with
    | some '"' :: rest =>
      match text rest with
      | none => ([], false, [])
      | some (key, rest) =>
        match skipSpace rest with
        | some ':' :: rest =>
          match value fuel rest with
          | (.broken, _) => ([(key.toOption, .broken)], false, [])
          | (d, rest) =>
            let (fields, closed, rest) := members fuel false rest
            ((key.toOption, d) :: fields, closed, rest)
        | _ => ([(key.toOption, .broken)], false, [])
    | _ => ([], false, [])

end

/-- Reads the text as one value; nothing but white space may follow it. -/
def read (cs : List Symbol) : Draft × Bool :=
  let (d, rest) := value (3 * cs.length + 3) cs
  (d, (skipSpace rest).isEmpty)

end Draft

end Proctor.Json
