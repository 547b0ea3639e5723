import Proctor.Json.Value

/-!
# JSON text of a value

Values are written without blanks. In strings the quote, the backslash and the control
characters are escaped, and so are the line separators U+0085, U+2028 and U+2029: a value is
one line by every convention.
-/

set_option autoImplicit false

namespace Proctor.Json

def hexChar (n : Nat) : Char := "0123456789abcdef".toList.getD n '0'

/-- The `\u` escape of a code below `2 ^ 16`. -/
def unicodeEscape (n : Nat) : List Char :=
  ['\\', 'u', hexChar (n / 4096), hexChar (n / 256 % 16), hexChar (n / 16 % 16), hexChar (n % 16)]

/-- A character as it stands in a string. -/
def escaped (c : Char) : List Char :=
  match c with
  | '"' => ['\\', '"']
  | '\\' => ['\\', '\\']
  | '\n' => ['\\', 'n']
  | '\r' => ['\\', 'r']
  | '\t' => ['\\', 't']
  | '\x08' => ['\\', 'b']
  | '\x0c' => ['\\', 'f']
  | c =>
    if c.toNat < 0x20 ∨ c.toNat = 0x85 ∨ c.toNat = 0x2028 ∨ c.toNat = 0x2029 then unicodeEscape c.toNat
    else [c]

def quoted (s : String) : List Char := '"' :: s.toList.flatMap escaped ++ ['"']

def Number.text : Number → String
  | .whole n => Text.Integer.text n
  | .double x => Decimal.text x

namespace Value

mutual

def chars : Value → List Char
  | .null => "null".toList
  | .bool b => (if b then "true" else "false").toList
  | .number n => n.text.toList
  | .string s => quoted s
  | .array items => '[' :: charsItems items ++ [']']
  | .object fields => '\x7b' :: charsFields fields ++ ['\x7d']

/-- The items, with commas between them. -/
def charsItems : List Value → List Char
  | [] => []
  | v :: rest => chars v ++ (if rest.isEmpty then [] else ',' :: charsItems rest)

def charsFields : List (String × Value) → List Char
  | [] => []
  | (key, v) :: rest => quoted key ++ ':' :: chars v ++ (if rest.isEmpty then [] else ',' :: charsFields rest)

end

/-- The text of a value. -/
def print (v : Value) : String := String.ofList v.chars

end Value

end Proctor.Json
