import Proctor.Error
import Proctor.Http.Message
import Proctor.Session.Paging
import Proctor.Text.Percent

/-!
# Query strings

A query is a list of pairs of texts, with `&` between them and `=` in them; in each text `+`
is a blank, and then the rest is percent-decoded. Of a listing's query each known key may
come once, and keys that are not known do not matter.
-/

set_option autoImplicit false

namespace Proctor.Http.Query

/-- One decoded text of a query; nothing if its bytes are no text. -/
def decode? (cs : List Char) : Option String :=
  Text.Percent.decode? (cs.map fun c => if c = '+' then ' ' else c)

/-- The pairs of a query; empty ones are left out. -/
def pairs (query : List Char) : List (Option String × Option String) :=
  ((splitAll '&' query).filter (!·.isEmpty)).map fun pair =>
    let (key, value) := splitFirst '=' pair
    (decode? key, decode? (value.getD []))

/-- The values of a key. -/
def valuesOf (key : String) (ps : List (Option String × Option String)) : List (Option String) :=
  (ps.filter (·.1 == some key)).map (·.2)

/-- Reads the one value of a key, if the key is there. -/
def field {α : Type} (key : String) (read : String → Option α) (ps : List (Option String × Option String)) :
    Except Error (Option α) :=
  match valuesOf key ps with
  | [] => .ok none
  | [some value] =>
    match read value with
    | some a => .ok (some a)
    | none => .error (.input .query)
  | _ => .error (.input .query)

/-- The page that is shown if none is asked for. -/
def firstPage : Int := 1

/-- The length of a page if none is asked for. -/
def usualLength : Int := 20

def whole : String → Option Int := Text.Integer.read? .signed64

/-- The bounds that a listing breaks; what is not asked for breaks none. -/
def faults (page perPage : Option Int) : List BoundFault :=
  (if page.all fun n => 1 ≤ n ∧ n ≤ 100000 then [] else [.page]) ++
    (if perPage.all fun n => 1 ≤ n ∧ n ≤ 100 then [] else [.perPage])

/-- The listing that a query asks for. -/
def filter (query : List Char) : Except Error Filter := do
  let ps := pairs query
  let user ← field "user_id" Uuid.read? ps
  let status ← field "status" Status.ofName? ps
  let page ← field "page" whole ps
  let perPage ← field "per_page" whole ps
  match faults page perPage with
  | [] => .ok ⟨user, status, page.getD firstPage, perPage.getD usualLength⟩
  | faults => .error (.input (.outOfBounds faults))

end Proctor.Http.Query
