import Proctor.Wire.Buffered

/-!
# JSON Web Keys

The header of a token may hold a key. The key is of no use here, but a header with something
else in its place is no header: `Jwk.reader` accepts the keys of the four families, each with
the parameters of its family and perhaps with some that all families share.
-/

set_option autoImplicit false

namespace Proctor.Http.Jwk

open Json

/-- The curves of elliptic keys. -/
def curves : List String := ["P-256", "P-384", "P-521", "Ed25519"]

/-- What a key may be meant for. -/
def algorithms : List String :=
  ["HS256", "HS384", "HS512", "ES256", "ES384", "RS256", "RS384", "RS512", "PS256", "PS384", "PS512", "EdDSA",
    "RSA1_5", "RSA-OAEP", "RSA-OAEP-256"]

def among (names : List String) (s : String) : Option Unit := if names.contains s then some () else none

/-- The parameters that every key may have. -/
def sharedFields : List Field :=
  .spare "alg" (Wire.innerName (among algorithms)) ::
    (["key_ops", "x5c"].map fun name => .spare name (Reader.list Reader.string)) ++
    ["use", "kid", "x5u", "x5t", "x5t#S256"].map fun name => .spare name Reader.string

/-- The parameters of a family: its name, perhaps a curve, and texts. -/
def familyFields (name : String) (onCurve : Bool) (texts : List String) : List Field :=
  .needed "kty" (Wire.bufferedName (among [name])) ::
    ((if onCurve then [.needed "crv" (Wire.bufferedName (among curves))] else []) ++
      texts.map fun text => .needed text Reader.string)

/-- The parameters of each family. -/
def families : List (List Field) :=
  [familyFields "EC" true ["x", "y"], familyFields "RSA" false ["n", "e"], familyFields "oct" false ["k"],
    familyFields "OKP" true ["x"]]

/-- A key of one of the families. -/
def reader : Reader Unit := fun depth d => do
  let (shared, others) ← Wire.recordAndRest sharedFields depth d
  if families.any fun fields => (Wire.recordOf fields shared.depth others).isOk then .ok () else .error .mismatch

def isKey (text : String) : Bool := (read reader text).isOk

example : isKey "\x7b\"kty\":\"oct\",\"k\":\"AA\",\"x\":1\x7d" := by decide +kernel
example : ¬isKey "\x7b\"kty\":\"EC\",\"crv\":\"P-257\",\"x\":\"a\",\"y\":\"b\"\x7d" := by decide +kernel

end Proctor.Http.Jwk
