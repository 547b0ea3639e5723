import Proctor.Proofs.Exam.Suited
import Proctor.Proofs.Hall.Stock

/-!
# How a hall can arise

A hall starts with some questions. Then callers come and make their accesses, and new questions are put into the catalog while nobody is in
the middle of an operation. `Coherent` is the invariant of this: every slot has its question, and
every answer is of the kind of its slot (`Arises.coherent`).
-/

set_option autoImplicit false

namespace Proctor

/-- What is told is about the tables and the deeds only. -/
theorem Exam.Operation.tells_of_same {o : Operation} {r : Except Error o.Result} {v u : View} (told : Tells o.Vouches r v)
    (tables : u.tables = v.tables) (deeds : u.deeds = v.deeds) : Tells o.Vouches r u := by
  cases r with
  | error e =>
    intro status named
    obtain ⟨s, known, same⟩ := told status named
    exact ⟨s, ⟨tables ▸ known.recalls, deeds ▸ known.subject⟩, same⟩
  | ok a =>
    refine ⟨fun s listed => tables ▸ told.shown s listed, ?_⟩
    have proves := told.proves
    cases o <;> simp only [Proves, View.Answered, View.Cancelled, deeds] at proves ⊢ <;> exact proves

namespace Hall

open Call

/-- The hall with one more question. -/
def insert (h : Hall) (q : Question) : Hall := { h with world := { h.world with catalog := h.world.catalog.insert q } }

/-- The halls that can arise, when no question of the catalog is replaced. -/
inductive Arises : Hall → Prop where
  | start (questions : List Question) (now : Instant) (quota : Option Quota) : Arises (start (.ofList questions) now quota)
  | act {h : Hall} (arises : Arises h) (x : Event) : Arises (h.act x)
  | insert {h : Hall} (arises : Arises h) (idle : ∀ i, h.access? i = none) {q : Question}
      (new : h.world.catalog.get? q.id = none) : Arises (h.insert q)

theorem Arises.play {h : Hall} (arises : h.Arises) (events : List Event) : (h.play events).Arises := by
  induction events generalizing h with
  | nil => exact arises
  | cons x events ih => exact ih (arises.act x)

variable {h : Hall} {i : Nat} {o : Exam.Operation} {q : Access} {next : q.Answer → Call o.Result}

/-- Whatever holds of tables that any accesses can lead to holds of those of a hall. -/
theorem Arises.reached (arises : h.Arises) : h.tables.Reached := by
  induction arises with
  | start questions now quota => exact .empty
  | @act h _ x ih =>
    obtain eq | ⟨o, -, -, eq⟩ | ⟨i, now, o, q, next, -, -, eq⟩ := h.act_cases x <;> rewrite [eq]
    · exact ih
    · exact ih
    · exact .access { h.world with now := now } ih q
  | insert _ _ _ ih => exact ih

/-- What is left of each operation keeps answers of the kinds of their slots. -/
def Suits (h : Hall) : Prop :=
  ∀ {i : Nat} {c : Caller}, h.callers[i]? = some c → Exam.Suiting i (fun _ u => u.tables.Filed) c.rest (h.view i)

/-- What holds in a hall that can arise. -/
structure Coherent (h : Hall) : Prop where
  sound : h.Sound
  stocked : h.world.Stocked
  keeps : h.Keeps World.Stocks
  suited : h.tables.Suited
  suits : h.Suits

theorem coherent_start (questions : List Question) (now : Instant) (quota : Option Quota) :
    (start (.ofList questions) now quota).Coherent where
  sound := sound_start _ now quota
  stocked := World.stocked_start (Catalog.keyed_ofList questions) now quota
  keeps := fun here => by cases here
  suited := Tables.suited_empty
  suits := fun here => by cases here

theorem Sound.suits_entered (sound : h.Sound) (suits : h.Suits) : (h.entered o).Suits := by
  intro i c here
  obtain here | ⟨rfl, rfl⟩ := callers_entered here
  · exact suits here
  · exact o.suits_call sound.valid.consistent.filed (congrArg Proctor.subject? sound.deeds_new)

theorem Sound.suits_acted (sound : h.Sound) (suits : h.Suits) (here : h.callers[i]? = some ⟨o, .step q next⟩) (now : Instant) :
    (h.acted i now next).Suits := by
  intro j c there
  by_cases same : i = j
  · subst same
    obtain rfl := Option.some.inj ((callers_acted_self here).symm.trans there)
    rw [view_acted_self]
    exact ((suits here).resume (sound.idle i now)).2
  · rw [callers_acted_of_ne same] at there
    have rests := sound.rests_acted here now same
    exact (suits there).stable (fun u further => rests.trans sound.valid further) fun _ _ =>
      (sound.acted here now).valid.consistent.filed

/-- A caller who makes no access any more has its outcome. -/
theorem exists_eq_ofExcept {rest : Call o.Result} (here : h.callers[i]? = some ⟨o, rest⟩) (idle : h.access? i = none) :
    ∃ r, rest = .ofExcept r := by
  cases rest with
  | done a => exact ⟨.ok a, rfl⟩
  | failed e => exact ⟨.error e, rfl⟩
  | step q next => cases (access?_of_callers here).symm.trans idle

namespace Coherent

theorem act (coherent : h.Coherent) (x : Event) : (h.act x).Coherent := by
  obtain ⟨stocks, keeps⟩ := stocks_play coherent.keeps [x]
  refine { sound := (coherent.sound.act x).1, stocked := coherent.stocked.of_stocks stocks, keeps := keeps, suited := ?_, suits := ?_ }
  all_goals
    obtain eq | ⟨o, -, -, eq⟩ | ⟨i, now, o, q, next, -, here, eq⟩ := h.act_cases x <;> rewrite [eq]
  · exact coherent.suited
  · exact coherent.suited
  · exact ((coherent.suits here).resume (coherent.sound.idle i now)).1 coherent.suited
  · exact coherent.suits
  · exact coherent.sound.suits_entered coherent.suits
  · exact coherent.sound.suits_acted coherent.suits here now

/-- What is stored has its questions as before, and nobody has anything to do that the new one could change. -/
theorem insert (coherent : h.Coherent) (idle : ∀ i, h.access? i = none) {q : Question}
    (new : h.world.catalog.get? q.id = none) : (h.insert q).Coherent := by
  have filed := coherent.sound.valid.consistent.filed
  constructor
  case sound =>
    refine { coherent.sound with accounts := fun {i c} here => ?_ }
    have told := coherent.sound.accounts here
    obtain ⟨o, rest⟩ := c
    obtain ⟨r, rfl⟩ := exists_eq_ofExcept (h := h) here (idle i)
    cases r with
    | ok a => exact Exam.Operation.tells_of_same told rfl rfl
    | error e => exact Exam.Operation.tells_of_same told rfl rfl
  case stocked =>
    have keeps : h.world.catalog.keepsKind q = true := by rw [Catalog.keepsKind, new, Option.all_none]
    exact coherent.stocked.insert keeps
  case keeps =>
    intro i c here
    obtain ⟨o, rest⟩ := c
    obtain ⟨r, rfl⟩ := exists_eq_ofExcept (h := h) here (idle i)
    cases r <;> trivial
  case suited => exact coherent.suited
  case suits =>
    intro i c here
    obtain ⟨o, rest⟩ := c
    obtain ⟨r, rfl⟩ := exists_eq_ofExcept (h := h) here (idle i)
    cases r <;> exact filed

end Coherent

/-- **What holds in any hall that can arise.** -/
theorem Arises.coherent (arises : h.Arises) : h.Coherent := by
  induction arises with
  | start questions now quota => exact coherent_start questions now quota
  | act _ x ih => exact ih.act x
  | insert _ idle new ih => exact ih.insert idle new

end Hall

end Proctor
