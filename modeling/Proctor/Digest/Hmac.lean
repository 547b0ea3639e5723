import Proctor.Digest.Sha256

/-!
# Keyed digests

`Hmac.sha256 key message` is the HMAC of the message under SHA-256: two nested digests over
the key, masked with two constants, and the message.
-/

set_option autoImplicit false

namespace Proctor.Digest.Hmac

/-- The key as one block: digested when it is longer, then filled up with zeros. -/
def blockKey (key : List UInt8) : List UInt8 :=
  let short := if 64 < key.length then Sha256.hash key else key
  short ++ List.replicate (64 - short.length) 0

def sha256 (key message : List UInt8) : List UInt8 :=
  let k := blockKey key
  Sha256.hash (k.map (· ^^^ 0x5c) ++ Sha256.hash (k.map (· ^^^ 0x36) ++ message))

end Proctor.Digest.Hmac
