import Proctor.Session.Status
import Proctor.Text.Integer
import Proctor.Uuid

/-!
# Pages of a listing

A listing takes the sessions of one user or of all, in one state or in all, and shows one
page of them. The number of sessions before a page is a signed 64-bit number that stops at
its greatest value. It is calculated from the page before, so the least page, which has none,
has no such number (`offset?`); what `offset` gives for it is not what a listing would use.
-/

set_option autoImplicit false

namespace Proctor

/-- Which sessions are wanted, and which page of them. -/
structure Filter where
  user : Option Uuid
  status : Option Status
  page : Int
  perPage : Int
deriving DecidableEq

namespace Filter

/-- The number of sessions before a page that has a page before it. -/
def offset (f : Filter) : Int :=
  min (max (f.page - 1) 0 * max f.perPage 0) Text.Width.signed64.greatest

/-- The same, or nothing if the page before has no signed 64-bit number. -/
def offset? (f : Filter) : Option Int :=
  if Text.Width.signed64.holds (f.page - 1) then some f.offset else none

end Filter

/-- The number of pages that `total` sessions take. -/
def pageCount (total perPage : Int) : Int := (total + perPage - 1) / perPage

end Proctor
