import Proctor.Http.Message

/-!
# JSON media types

A media type is a type, a subtype and parameters, all without regard to case. The subtype may
end in a plus sign and a suffix. JSON is `application/json`, and every type of `application`
with the suffix `json`.
-/

set_option autoImplicit false

namespace Proctor.Http.MediaType

/-- A character of a name. -/
def isToken (c : Char) : Bool := c.isAlphanum || "!#$%&'*+-.^_\x60|~".toList.contains c

/-- A character of a quoted parameter. -/
def isQuoted (c : Char) : Bool := 32 ≤ c.toNat && c.toNat != 127

/-- What may follow a quoted parameter: blanks, and then the end or the next parameter. -/
def afterQuote : List Char → Option (List Char)
  | [] => some []
  | ';' :: rest => some rest
  | ' ' :: rest => afterQuote rest
  | _ => none

/-- What follows a quoted text after its opening quote; its first character may be a quote. -/
def quoted : List Char → Option (List Char)
  | [] => none
  | c :: cs =>
    match cs.dropWhile fun c => isQuoted c && c != '"' with
    | '"' :: rest => if isQuoted c then afterQuote rest else none
    | _ => none

/-- The rest of the parameters after one of them. -/
def parameter (cs : List Char) : Option (List Char) :=
  match cs.takeWhile isToken, cs.dropWhile isToken with
  | _ :: _, '=' :: '"' :: rest => quoted rest
  | _ :: _, '=' :: rest =>
    match rest.takeWhile isToken, rest.dropWhile isToken with
    | _, [] => some []
    | _ :: _, ';' :: rest => some rest
    | _, _ => none
  | _, _ => none

/-- The parameters after the first semicolon are well formed. -/
def parameters : Nat → List Char → Bool
  | 0, _ => false
  | fuel + 1, cs =>
    match cs.dropWhile (· == ' ') with
    | [] => true
    | cs =>
      match parameter cs with
      | some rest => parameters fuel rest
      | none => false

/-- The subtype without its suffix, and the suffix. -/
def suffix (subtype : List Char) : List Char × Option (List Char) :=
  match subtype with
  | [] => ([], none)
  | c :: cs =>
    if cs.contains '+' then
      let ending := (cs.reverse.takeWhile (· != '+')).reverse
      (c :: cs.take (cs.length - ending.length - 1), some ending)
    else (subtype, none)

/-- The value of a header names a JSON media type. -/
def isJson (value : String) : Bool :=
  let cs := value.toList
  let type := cs.takeWhile isToken
  match cs.dropWhile isToken with
  | '/' :: rest =>
    let subtype := rest.takeWhile isToken
    let named :=
      match rest.dropWhile isToken with
      | [] => true
      | ';' :: more => !subtype.isEmpty && parameters (more.length + 1) more
      | _ => false
    let (main, ending) := suffix (subtype.map Char.toLower)
    named && type.map Char.toLower == "application".toList &&
      (main == "json".toList || ending == some "json".toList)
  | _ => false

example : isJson "application/json" ∧ isJson "Application/Problem+JSON; charset=\"utf-8\" ;a=b" := by decide
example : ¬isJson "application/jsonx" ∧ ¬isJson "text/json" ∧ ¬isJson "application/json ;a=b" := by decide

end Proctor.Http.MediaType
