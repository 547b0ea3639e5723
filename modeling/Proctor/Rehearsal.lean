import Proctor.Http.Service
import Proctor.Token
import Proctor.Wire.Operation
import Proctor.World

/-!
# Rehearsals

A rehearsal plays a script on a world of its own. Chance is taken out: the sessions that are
opened have the tokens `T1`, `T2` and so on, and their questions are those of the script. A
step may carry cues: the cues that wait for an access play their events, in order, just before
the first such access, so that a call can be interfered with at any point.
-/

set_option autoImplicit false

namespace Proctor

/-- The accesses that a cue can wait for. -/
inductive Moment where
  | create
  | findByToken
  | find
  | list
  | markTimedOut
  | complete
  | deleteOngoing
  | sheet
  | slotAt
  | answersOf
  | record
  | clear
deriving DecidableEq

def Access.moment? : Access → Option Moment
  | .create _ _ => some .create
  | .findByToken _ => some .findByToken
  | .find _ => some .find
  | .list _ => some .list
  | .markTimedOut _ _ => some .markTimedOut
  | .complete _ _ => some .complete
  | .deleteOngoing _ => some .deleteOngoing
  | .sheet _ => some .sheet
  | .slotAt _ _ => some .slotAt
  | .answersOf _ => some .answersOf
  | .record _ => some .record
  | .clear _ _ => some .clear
  | _ => none

/-- What an access gives when it is refused, if it can be. -/
def Access.refusal? : (q : Access) → Option q.Answer
  | .findByToken _ => some none
  | .find _ => some none
  | .complete _ _ => some none
  | .deleteOngoing _ => some false
  | .slotAt _ _ => some none
  | .record _ => some none
  | .clear _ _ => some Removal.closed
  | _ => none

namespace Rehearsal

/-- What happens on a cue. -/
inductive Event where
  | advance (ms : Int)
  | set (t : Instant)
  | timeOut (session : Int)
  | complete (session : Int)
  | delete (session : Int)
  /-- The access is refused, if it can be. -/
  | refuse
  /-- The access fails, and nothing after this event happens. -/
  | fail (text : String)
deriving DecidableEq

structure Cue where
  before : Moment
  events : List Event
deriving DecidableEq

/-- The state of a rehearsal. -/
structure Stage where
  world : World
  /-- The number of tokens that were given out. -/
  opened : Nat
  cues : List Cue
  /-- The questions for the next session, if the script names them. -/
  pick : Option (List Int)
  /-- What the last creation came with, before chance was taken out. -/
  draft : Option (Terms × List Drawn)
deriving DecidableEq

namespace Stage

def start (w : World) : Stage := ⟨w, 0, [], none, none⟩

/-- The questions of a session: those of the script, or else the first of the pool. -/
def questionsFor (s : Stage) (scope : Scope) (count : Nat) : List Drawn :=
  match s.pick with
  | some ids => Draw.number ((s.world.catalog.getAll ids).map fun q => ⟨q.id, q.kind⟩)
  | none => Draw.number ((s.world.catalog.pool scope).take count)

/-- Carries out an access on the world; creations get the token and the questions of the script. -/
def perform (q : Access) (s : Stage) : Except Error q.Answer × Stage :=
  match q with
  | .create terms drawn =>
    let opened := s.opened + 1
    let token := "T" ++ Text.Integer.text opened
    let (outcome, world) :=
      s.world.handle (.create { terms with token := token } (s.questionsFor terms.scope drawn.length))
    (outcome, { s with world := world, opened := opened, draft := some (terms, drawn) })
  | q =>
    let (outcome, world) := s.world.handle q
    (outcome, { s with world := world })

/-- Plays events up to a failure, and tells whether the access is refused. -/
def play : List Event → Bool → World → Except String Bool × World
  | [], refused, w => (.ok refused, w)
  | .advance ms :: rest, refused, w => play rest refused { w with now := w.now.plusMillis ms }
  | .set t :: rest, refused, w => play rest refused { w with now := t }
  | .timeOut id :: rest, refused, w => play rest refused { w with tables := (w.tables.markTimedOut id w.now).2 }
  | .complete id :: rest, refused, w => play rest refused { w with tables := (w.tables.complete id w.now).2 }
  | .delete id :: rest, refused, w => play rest refused { w with tables := (w.tables.deleteOngoing id).2 }
  | .refuse :: rest, _, w => play rest true w
  | .fail text :: _, _, w => (.error text, w)

/-- Carries out an access after the events of all cues that wait for it, which are then used up. -/
def handle : Call.Handler Stage := fun q s =>
  let (due, later) := s.cues.partition (some ·.before == q.moment?)
  let (outcome, world) := play (due.flatMap Cue.events) false s.world
  let s := { s with world := world, cues := later }
  match outcome with
  | .error text => (.error (.internal (.other text)), s)
  | .ok refused =>
    match (if refused then q.refusal? else none) with
    | some answer => (.ok answer, s)
    | none => s.perform q

/-- Carries out a call, after which cues that were not used are dropped. -/
def run {α : Type} (c : Call α) (s : Stage) : Except Error α × Stage :=
  let (outcome, s) := c.run handle s
  (outcome, { s with cues := [] })

end Stage

/-- Whether a draw was sound: its numbers, its questions and the token. -/
structure Soundness where
  count : Nat
  contiguous : Bool
  distinct : Bool
  fromPool : Bool
  token : Bool
deriving DecidableEq

def Soundness.of (pool : List PoolEntry) (terms : Terms) (drawn : List Drawn) : Soundness where
  count := drawn.length
  contiguous := drawn.map (·.sequence) == (List.range drawn.length).map fun i : Nat => (i : Int) + 1
  distinct := decide (drawn.map (·.question)).Nodup
  fromPool := drawn.all fun d => pool.contains ⟨d.question, d.kind⟩
  token := Token.wellFormed terms.token

def Soundness.json (s : Soundness) : Json.Value :=
  .ofFields
    [("count", .nat s.count), ("contiguous", .bool s.contiguous), ("distinct", .bool s.distinct),
      ("from_pool", .bool s.fromPool), ("token_ok", .bool s.token)]

/-- One step of a script. -/
inductive Step where
  | advance (ms : Int)
  | set (t : Instant)
  | insert (q : Question)
  /-- An access of its own, on which no cue is played. -/
  | access (q : Access)
  | answerCount (session : Int)
  /-- Opening a session, with a report on the draw. -/
  | create (user : Uuid) (r : Request)
  | operate (o : Exam.Operation)
  | http (m : Http.Message)

/-- The token and the words that creations come with. -/
def chance : Chance := ⟨Token.ofWords [], []⟩

namespace Stage

/-- The outcome of opening a session, with the soundness of the draw. -/
def create (user : Uuid) (r : Request) (s : Stage) : Except Error Json.Value × Stage :=
  let pool := s.world.catalog.pool r.scope
  let (outcome, s) := s.run (Exam.create user r chance)
  let draw := s.draft.map fun (terms, drawn) => Soundness.of pool terms drawn
  (outcome.map fun session => .ofFields
    [("session", session.jsonWithId), ("draw", Json.Value.orNull Soundness.json draw)], s)

/-- Moves the clock. -/
def moveTo (t : Instant) (s : Stage) : Except Error Json.Value × Stage :=
  (.ok t.json, { s with world := { s.world with now := t } })

/-- Sends a request; `check` decides about bearer tokens. -/
def send (check : String → Option Claims) (m : Http.Message) (s : Stage) : Json.Value × Stage :=
  let (reply, s) := Http.serve handle check chance m s
  (.ofFields [("status", .nat reply.status), ("body", reply.body.getD .null)], { s with cues := [] })

/-- Takes one step. -/
def step (check : String → Option Claims) : Step → Stage → Except Error Json.Value × Stage
  | .advance ms, s => s.moveTo (s.world.now.plusMillis ms)
  | .set t, s => s.moveTo t
  | .insert q, s => (.ok doneJson, { s with world := { s.world with catalog := s.world.catalog.insert q } })
  | .access q, s =>
    let (outcome, world) := s.world.handle q
    (outcome.map q.json, { s with world := world })
  | .answerCount session, s => (.ok (.nat (s.world.tables.answerCount session)), s)
  | .create user r, s => s.create user r
  | .operate o, s =>
    let (outcome, s) := s.run o.call
    (outcome.map o.json, s)
  | .http m, s =>
    let (reply, s) := s.send check m
    (.ok reply, s)

/-- Takes one step with its cues and its questions. -/
def take (check : String → Option Claims) (step : Step) (cues : List Cue) (pick : Option (List Int)) (s : Stage) :
    Except Error Json.Value × Stage :=
  let (outcome, s) := ({ s with cues := cues, pick := pick } : Stage).step check step
  (outcome, { s with cues := [], pick := none })

end Stage

end Rehearsal

end Proctor
