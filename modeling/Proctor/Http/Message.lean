import Proctor.Error
import Proctor.Json.Value

/-!
# HTTP messages

A request is a method, a target, the headers that count, and a body. The target is a path and
perhaps a query, and may name a scheme and an authority before them. A reply is a status and
perhaps a JSON body. The reply to an error names its class and says what callers may know.
-/

set_option autoImplicit false

namespace Proctor.Http

structure Message where
  method : String
  target : String
  authorization : Option String
  contentType : Option String
  body : String
deriving DecidableEq

structure Reply where
  status : Nat
  body : Option Json.Value

namespace Reply

/-- A reply without a body. -/
def bare (status : Nat) : Reply := ⟨status, none⟩

def ok (body : Json.Value) : Reply := ⟨200, some body⟩

def ofError (e : Error) : Reply :=
  ⟨e.httpStatus, some (.ofFields [("error", .string e.code), ("message", .string e.publicMessage)])⟩

def ofExcept : Except Error Reply → Reply
  | .ok r => r
  | .error e => ofError e

def withoutBody (r : Reply) : Reply := bare r.status

end Reply

/-- A header value whose characters are visible, blanks or tabs. -/
def visible? (value : String) : Option String :=
  if value.toList.all fun c => c == '\t' || (32 ≤ c.toNat && c.toNat < 127) then some value else none

/-- Splits at every occurrence of a character. -/
def splitAll (sep : Char) : List Char → List (List Char)
  | [] => [[]]
  | c :: cs =>
    if c = sep then [] :: splitAll sep cs
    else
      match splitAll sep cs with
      | [] => [[c]]
      | part :: parts => (c :: part) :: parts

/-- Splits at the first occurrence of a character. -/
def splitFirst (sep : Char) (cs : List Char) : List Char × Option (List Char) :=
  match cs.dropWhile (· != sep) with
  | [] => (cs, none)
  | _ :: rest => (cs.takeWhile (· != sep), some rest)

/-- The character begins the path or the query of a target. -/
def endsAuthority (c : Char) : Bool := c == '/' || c == '?'

/-- What follows the scheme and the authority of a target that names them. -/
def afterAuthority? (target : List Char) : Option (List Char) :=
  match target.dropWhile fun c => c != ':' && !endsAuthority c with
  | ':' :: '/' :: '/' :: rest => some (rest.dropWhile (!endsAuthority ·))
  | _ => none

/-- The path and the query of a target. A scheme and an authority before them are left out, and
the path is a slash if only these are given; a fragment is left out as well. -/
def Message.pathAndQuery (m : Message) : List Char × List Char :=
  let target := (splitFirst '#' m.target.toList).1
  let (path, query) := splitFirst '?' ((afterAuthority? target).getD target)
  (if path.isEmpty then ['/'] else path, query.getD [])

/-- The path and the query of a target, as texts. -/
def pathAndQueryOf (target : String) : String × String :=
  let (path, query) := (⟨"GET", target, none, none, ""⟩ : Message).pathAndQuery
  (String.ofList path, String.ofList query)

example : pathAndQueryOf "/a://b?c#d?e" = ("/a://b", "c") := by decide +kernel
example : pathAndQueryOf "http://user@h:80/a?b" = ("/a", "b") := by decide +kernel
example : pathAndQueryOf "http://h?b" = ("/", "b") := by decide +kernel
example : pathAndQueryOf "h:80" = ("h:80", "") := by decide +kernel

end Proctor.Http
