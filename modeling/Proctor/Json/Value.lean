import Proctor.Decimal.Positional
import Proctor.Table

/-!
# JSON values

Whole numbers and doubles are different numbers: `1` is whole, `1.0` and `1e0` are not. The
fields of an object are listed in increasing key order, each key once; `Value.ofFields`
brings a list of fields into this form, the last of several fields with one key counting.
-/

set_option autoImplicit false

namespace Proctor.Json

inductive Number where
  | whole (n : Int)
  | double (x : Float)
deriving DecidableEq

inductive Value where
  | null
  | bool (b : Bool)
  | number (n : Number)
  | string (s : String)
  | array (items : List Value)
  | object (fields : List (String × Value))

namespace Value

/-- The object with these fields, by key. -/
def ofTable (fields : Table String Value) : Value := .object fields.entries

def ofFields (fields : List (String × Value)) : Value := .ofTable (.ofList fields)

def int (n : Int) : Value := .number (.whole n)

def nat (n : Nat) : Value := .int n

def double (x : Float) : Value := .number (.double x)

/-- The value of an optional part; a missing one is `null`. -/
def orNull {α : Type} (f : α → Value) : Option α → Value
  | none => .null
  | some a => f a

/-- The value of a field of an object. -/
def field? (key : String) : Value → Option Value
  | .object fields => Table.find key fields
  | _ => none

end Value

/-- Reads a whole number in the signed 64-bit range; a double is refused whatever its value. -/
def Value.int64? : Value → Option Int
  | .number (.whole n) => if Text.Width.signed64.holds n then some n else none
  | _ => none

end Proctor.Json
