import Proctor.Call
import Proctor.Quota

/-!
# The world that calls act on

A `World` has tables, a catalog, a clock that shows one instant until it is moved, and a
quota. `World.handle` carries out single accesses; `World.run` carries out a whole call with
nothing in between.
-/

set_option autoImplicit false

namespace Proctor

structure World where
  tables : Tables
  catalog : Catalog
  now : Instant
  /-- The quota of new sessions; without one there is no limit. -/
  quota : Option Quota
deriving DecidableEq

namespace World

/-- A world without sessions. -/
def start (catalog : Catalog) (now : Instant) (quota : Option Quota) : World := ⟨∅, catalog, now, quota⟩

/-- Carries out one access. -/
def handle : Call.Handler World
  | .now, w => (.ok w.now, w)
  | .create terms drawn, w =>
    let (outcome, tables) := w.tables.create terms drawn
    (outcome.mapError .internal, { w with tables := tables })
  | .findByToken token, w => (.ok (w.tables.findByToken? token), w)
  | .find id, w => (.ok (w.tables.find? id), w)
  | .list f, w => (.ok (w.tables.list f), w)
  | .markTimedOut id now, w =>
    let (outcome, tables) := w.tables.markTimedOut id now
    (outcome.mapError .notFound, { w with tables := tables })
  | .complete id now, w =>
    let (outcome, tables) := w.tables.complete id now
    (.ok outcome, { w with tables := tables })
  | .deleteOngoing id, w =>
    let (outcome, tables) := w.tables.deleteOngoing id
    (.ok outcome, { w with tables := tables })
  | .sheet session, w => (.ok (w.tables.sheet session), w)
  | .slotAt session sequence, w => (.ok (w.tables.slotAt? session sequence), w)
  | .answersOf session, w => (.ok (w.tables.answersOf session), w)
  | .record a, w =>
    let (outcome, tables) := w.tables.record a
    (.ok outcome, { w with tables := tables })
  | .clear slot now, w =>
    let (outcome, tables) := w.tables.clear slot now
    (.ok outcome, { w with tables := tables })
  | .hasLevel subject level, w => (.ok (w.catalog.hasLevel subject level), w)
  | .pool s, w => (.ok (w.catalog.pool s), w)
  | .question id, w =>
    match w.catalog.get? id with
    | some q => (.ok q, w)
    | none => (.error (.notFound (.question id)), w)
  | .questions ids, w => (.ok (w.catalog.getAll ids), w)
  | .allowCreate user, w =>
    let (allowed, quota) := Quota.ask w.quota user w.now
    (.ok allowed, { w with quota := quota })

/-- Carries out a call with nothing in between. -/
def run {α : Type} (c : Call α) (w : World) : Except Error α × World := c.run handle w

end World

/-- What a world without a database is left with: a clock and a quota. -/
structure Outage where
  now : Instant
  quota : Option Quota
deriving DecidableEq

namespace Outage

/-- Only the clock and the quota answer; everything else needs the database. -/
def handle : Call.Handler Outage
  | .now, o => (.ok o.now, o)
  | .allowCreate user, o =>
    let (allowed, quota) := Quota.ask o.quota user o.now
    (.ok allowed, { o with quota := quota })
  | .create _ _, o => (.error (.database .poolClosed), o)
  | .findByToken _, o => (.error (.database .poolClosed), o)
  | .find _, o => (.error (.database .poolClosed), o)
  | .list _, o => (.error (.database .poolClosed), o)
  | .markTimedOut _ _, o => (.error (.database .poolClosed), o)
  | .complete _ _, o => (.error (.database .poolClosed), o)
  | .deleteOngoing _, o => (.error (.database .poolClosed), o)
  | .sheet _, o => (.error (.database .poolClosed), o)
  | .slotAt _ _, o => (.error (.database .poolClosed), o)
  | .answersOf _, o => (.error (.database .poolClosed), o)
  | .record _, o => (.error (.database .poolClosed), o)
  | .clear _ _, o => (.error (.database .poolClosed), o)
  | .hasLevel _ _, o => (.error (.database .poolClosed), o)
  | .pool _, o => (.error (.database .poolClosed), o)
  | .question _, o => (.error (.database .poolClosed), o)
  | .questions _, o => (.error (.database .poolClosed), o)

end Outage

end Proctor
