import Proctor.Digest.Hmac
import Proctor.Error
import Proctor.Http.Jwk
import Proctor.Http.Message
import Proctor.Json.Attempt
import Proctor.Text.Base64Url
import Proctor.Uuid

/-!
# Bearer tokens

A token has three parts with dots between them: a header and claims, both JSON in base64, and
a signature, which is the keyed digest of the first two parts. `Bearer.verify` accepts a token
that names the digest in its header, bears the right signature, has not expired, and is not
meant for a particular audience.
-/

set_option autoImplicit false

namespace Proctor

/-- What a token says about its bearer. -/
structure Claims where
  subject : String
  /-- When the token expires, in seconds since the start of 1970. -/
  expires : Int
  role : Option String
deriving DecidableEq

namespace Claims

/-- The bearer's user id. -/
def user (c : Claims) : Except Error Uuid :=
  match Uuid.read? c.subject with
  | some u => .ok u
  | none => .error (.unauthorized .badSubject)

def isAdmin (c : Claims) : Bool := c.role.any (Text.sameIgnoringCase · "admin")

end Claims

namespace Wire

open Json

def claimsFields : List Field :=
  [.needed "sub" Reader.string, .needed "exp" (Reader.integer .unsigned64), .spare "role" Reader.string]

def claims : Reader Claims := fun depth d => do
  let r ← Record.read claimsFields depth d
  .ok ⟨← r.get "sub" Reader.string, ← r.get "exp" (Reader.integer .unsigned64), ← r.get? "role" Reader.string⟩

end Wire

def Claims.json (c : Claims) : Json.Value :=
  .ofFields
    [("sub", .string c.subject), ("exp", .int c.expires), ("role", Json.Value.orNull .string c.role)]

namespace Http.Bearer

open Json

/-- The only digest that is accepted. -/
def algorithm : String := "HS256"

/-- The fields of a header, in the order in which a header without names lists them. -/
def headerFields : List Field :=
  [.spare "typ" Reader.string, .needed "alg" (Reader.name fun s => if s = algorithm then some () else none),
    .spare "cty" Reader.string, .spare "jku" Reader.string, .spare "jwk" Jwk.reader, .spare "kid" Reader.string,
    .spare "x5u" Reader.string, .spare "x5c" (Reader.list Reader.string), .spare "x5t" Reader.string,
    .spare "x5t#S256" Reader.string]

/-- The header names the digest. -/
def header : Reader Unit := fun depth d => (Record.read headerFields depth d).map fun _ => ()

/-- A claim of any shape, which is read as a value and does not matter. -/
def anyClaim : Nat → Draft → Except Fault Unit := Reader.plain.tried fun _ => .ok ()

/-- A claim of any shape, which is read as a number: nobody reads the items of an array or an
object, so there have to be none. -/
def numericClaim : Nat → Draft → Except Fault Unit := fun depth d =>
  match d with
  | .array items _ => if items.isEmpty then .ok () else .error .mismatch
  | .object fields _ => if fields.isEmpty then .ok () else .error .mismatch
  | d => anyClaim depth d

def isText : Value → Bool
  | .string _ => true
  | _ => false

/-- A text or a list of texts. -/
def isAudience : Value → Bool
  | .string _ => true
  | .array items => items.all isText
  | _ => false

/-- No audience: whatever cannot be read as one. -/
def noAudience : Nat → Draft → Except Fault Unit :=
  Reader.plain.tried fun v => if v.any isAudience then .error .mismatch else .ok ()

/-- The claims that have a meaning of their own; each may be there once. -/
def registeredFields : List Field :=
  ["exp", "sub"].map (fun name => ⟨name, true, fun _ d => Record.skipped d⟩) ++
    [⟨"iss", true, anyClaim⟩, ⟨"nbf", true, numericClaim⟩, ⟨"aud", true, noAudience⟩]

def registered : Reader Unit := fun depth d => (Record.readObject registeredFields depth d).map fun _ => ()

/-- The symbols of a part of a token. -/
def part? (cs : List Char) : Option (List Text.Symbol) := (Text.Base64Url.decode cs).map Text.Utf8.decode

/-- Splits at the last dot. -/
def splitLast (cs : List Char) : Option (List Char × List Char) :=
  match cs.reverse.dropWhile (· != '.') with
  | [] => none
  | _ :: before => some (before.reverse, (cs.reverse.takeWhile (· != '.')).reverse)

/-- The signature of a text. -/
def signature (secret : List UInt8) (signed : List Char) : List Char :=
  Text.Base64Url.encode (Digest.Hmac.sha256 secret (String.ofList signed).toUTF8.toList)

/-- The seconds for which a token is still accepted after it has expired. -/
def leeway : Int := 60

/-- The claims of a token that is accepted at a time in seconds since the start of 1970. -/
def verify (secret : String) (now : Int) (token : String) : Option Claims := do
  let (signed, given) ← splitLast token.toList
  let (head, payload) ← splitLast signed
  let head ← part? head
  (Json.readSymbols header head).toOption
  if given = signature secret.toUTF8.toList signed then
    let payload ← part? payload
    let claims ← (Json.readSymbols Wire.claims payload).toOption
    (Json.readSymbols registered payload).toOption
    if now - leeway ≤ claims.expires then some claims else none
  else none

/-- The claims of the caller, from the value of the header; `check` decides about tokens. -/
def authenticate (check : String → Option Claims) (value : Option String) : Except Error Claims :=
  match value with
  | none => .error (.unauthorized .missingHeader)
  | some value =>
    match visible? value with
    | none => .error (.unauthorized .malformedHeader)
    | some value =>
      if value.toList.take 7 = "Bearer ".toList then
        match check (String.ofList (value.toList.drop 7)) with
        | some claims => .ok claims
        | none => .error (.unauthorized .badToken)
      else .error (.unauthorized .otherScheme)

end Http.Bearer

end Proctor
