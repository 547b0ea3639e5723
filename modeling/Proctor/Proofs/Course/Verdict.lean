import Proctor.Proofs.Course.Basic

/-!
# The verdict of the log

What the log of a course says about a question of a session: whether it was answered rightly
when it was last answered or cleared, since the token of the session was given out last
(`verdict`). A slot of an ongoing session bears this verdict at any time (`logged_play`).
-/

set_option autoImplicit false

namespace Proctor

/-- The slot has an answer, and it is right. -/
def Tables.right (t : Tables) (slot : Int) : Bool := (t.answers.get? slot).any (·.isCorrect)

namespace Entry

/-- The grade that was written for the question of this token and sequence; a cleared question counts as wrong. -/
def mark? (e : Entry) (token : String) (sequence : Int) : Option Bool :=
  match e with
  | ⟨.submit t k _, .ok receipt⟩ => if t = token ∧ k = sequence then some receipt.isCorrect else none
  | ⟨.clear t k, .ok _⟩ => if t = token ∧ k = sequence then some false else none
  | _ => none

/-- The token was given to a new session. -/
def opens (e : Entry) (token : String) : Bool :=
  match e with
  | ⟨.create _ _ _, .ok s⟩ => s.token == token
  | _ => false

theorem mark?_of_opens {e : Entry} {token : String} (h : e.opens token = true) (other : String) (k : Int) :
    e.mark? other k = none := by
  obtain ⟨o, r⟩ := e
  cases o with
  | create user request chance => rfl
  | _ => cases h

/-- What a turn with this entry may have done to the tables. -/
inductive Effect (e : Entry) (t : Tables) : Tables → Prop where
  | quiet {u : Tables} (unmarked : ∀ token k, e.mark? token k = none) (unopened : ∀ token, e.opens token = false)
      (quiet : t.Quiet u) : e.Effect t u
  | marked {token : String} {k : Int} {right : Bool} {u : Tables}
      (marks : ∀ token' k', e.mark? token' k' = if token = token' ∧ k = k' then some right else none)
      (unopened : ∀ token, e.opens token = false) (wrote : t.Marks token k right u) : e.Effect t u
  | opened {terms : Terms} {drawn : List Drawn} (unmarked : ∀ token k, e.mark? token k = none)
      (opens : ∀ token, e.opens token = (terms.token == token)) (fresh : t.tokens.get? terms.token = none) :
      e.Effect t (t.opened terms drawn)

theorem effect_of_settles {t : Tables} {w : World} {o : Exam.Operation} {r : Except Error o.Result}
    (h : Exam.Settles t (fun a v => o.Done t a v.tables) r w) : Effect ⟨o, r⟩ t w.tables := by
  cases r with
  | error e => cases o <;> exact .quiet (fun _ _ => rfl) (fun _ => rfl) h
  | ok a =>
    cases o with
    | create user r chance =>
      obtain ⟨terms, drawn, fresh, rfl, opened⟩ := h
      rw [opened]
      exact .opened (fun _ _ => rfl) (fun _ => rfl) fresh
    | submit token sequence payload => exact .marked (fun _ _ => rfl) (fun _ => rfl) h
    | clear token sequence => exact .marked (fun _ _ => rfl) (fun _ => rfl) h
    | get token => exact .quiet (fun _ _ => rfl) (fun _ => rfl) h
    | questions token => exact .quiet (fun _ _ => rfl) (fun _ => rfl) h
    | complete token => exact .quiet (fun _ _ => rfl) (fun _ => rfl) h
    | cancel token => exact .quiet (fun _ _ => rfl) (fun _ => rfl) h
    | detail token => exact .quiet (fun _ _ => rfl) (fun _ => rfl) h
    | list f => exact .quiet (fun _ _ => rfl) (fun _ => rfl) h

end Entry

/-- The grade that was last written for a question, since its token was last given out. -/
def verdict (log : List Entry) (token : String) (sequence : Int) : Option Bool :=
  (log.takeWhile fun e => !e.opens token).findSome? (·.mark? token sequence)

section Verdict

variable {e : Entry} {log : List Entry} {token : String} {k : Int}

theorem verdict_of_opens (h : e.opens token = true) : verdict (e :: log) token k = none := by
  simp [verdict, h]

theorem verdict_of_not_opens (h : e.opens token = false) :
    verdict (e :: log) token k = (e.mark? token k).or (verdict log token k) := by
  simp only [verdict, h, List.takeWhile_cons, Bool.not_false, if_true, List.findSome?_cons]
  cases e.mark? token k <;> rfl

end Verdict

/-- The log and the tables tell the same. -/
structure Tables.Logged (t : Tables) (log : List Entry) : Prop where
  /-- The token of a session was given out. -/
  opened : ∀ {id s}, t.find? id = some s → ∃ e ∈ log, e.opens s.token = true
  /-- A question was answered or cleared only after its token had been given out. -/
  marked : ∀ {e before}, e :: before <:+ log → ∀ {token k right}, e.mark? token k = some right →
    ∃ e' ∈ before, e'.opens token = true
  /-- A slot of an ongoing session bears the verdict of the log. -/
  graded : ∀ {id s slot}, t.find? id = some s → s.status = .ongoing → slot ∈ t.slotsOf id →
    t.right slot.id = (verdict log s.token slot.sequence).getD false

theorem Tables.logged_empty : Tables.Logged ∅ [] where
  opened := fun h => by cases h
  marked := fun h => by cases List.suffix_nil.1 h
  graded := fun h => by cases h

namespace Entry.Effect

open Tables

variable {t u : Tables} {e : Entry} {log : List Entry}

/-- A session that is stored now had its token from this turn or before. -/
theorem exists_opens (effect : e.Effect t u) (logged : t.Logged log) {id : Int} {s : Session} (stored : u.find? id = some s) :
    ∃ e' ∈ e :: log, e'.opens s.token = true := by
  have earlier : ∀ {id r}, t.find? id = some r → r.token = s.token → ∃ e' ∈ e :: log, e'.opens s.token = true := by
    intro id r stored same
    obtain ⟨e', listed, opens⟩ := logged.opened stored
    exact ⟨e', List.mem_cons_of_mem e listed, same ▸ opens⟩
  cases effect with
  | quiet _ _ quiet =>
    obtain ⟨r, stored, same⟩ := quiet.stored stored
    exact earlier stored same
  | marked _ _ wrote =>
    cases wrote
    exact earlier stored rfl
  | opened _ opens _ =>
    obtain ⟨-, rfl⟩ | ⟨-, stored⟩ := find?_opened_eq_some.1 stored
    · exact ⟨e, List.mem_cons_self, by simp [opens, opening]⟩
    · exact earlier stored rfl

/-- A turn that answers or clears a question finds a session with its token. -/
theorem exists_opens_of_mark (effect : e.Effect t u) (consistent : t.Consistent) (logged : t.Logged log) {token : String} {k : Int}
    {right : Bool} (mark : e.mark? token k = some right) : ∃ e' ∈ log, e'.opens token = true := by
  cases effect with
  | quiet unmarked =>
    rw [unmarked] at mark
    cases mark
  | opened unmarked =>
    rw [unmarked] at mark
    cases mark
  | marked marks _ wrote =>
    rw [marks] at mark
    split at mark
    · rename_i this
      obtain ⟨rfl, rfl⟩ := this
      cases wrote with
      | intro _ found =>
        obtain ⟨stored, rfl⟩ := consistent.findByToken?_iff.1 found
        exact logged.opened stored
    · cases mark

/-- **A turn keeps the verdicts**: what it does to a slot is what its entry says. -/
theorem graded (effect : e.Effect t u) (before : t.Consistent) (after : u.Consistent) (evolves : t.Evolves u)
    (logged : t.Logged log) {id : Int} {s : Session} {slot : Slot} (stored : u.find? id = some s)
    (ongoing : s.status = .ongoing) (listed : slot ∈ u.slotsOf id) :
    u.right slot.id = (verdict (e :: log) s.token slot.sequence).getD false := by
  cases effect with
  | quiet unmarked unopened quiet =>
    have stored' := quiet.ongoing stored ongoing
    have same : u.right slot.id = t.right slot.id := by
      rw [right, quiet.answer (after.mem_slotsOf_iff.1 listed).1]
      rfl
    rw [evolves.slots stored' stored] at listed
    rw [same, logged.graded stored' ongoing listed, verdict_of_not_opens (unopened _), unmarked, Option.none_or]
  | @marked _ k _ _ marks unopened wrote =>
    cases wrote with
    | @intro r marked a? answers found listed' numbered graded written =>
      have stored' : t.find? id = some s := stored
      have listed : slot ∈ t.slotsOf id := listed
      obtain ⟨atToken, rfl⟩ := before.findByToken?_iff.1 found
      rw [verdict_of_not_opens (unopened _), marks]
      by_cases here : slot.id = marked.id
      · -- slots with one id are the same, and so are their sessions
        obtain ⟨held, own⟩ := before.mem_slotsOf_iff.1 listed
        obtain ⟨held', own'⟩ := before.mem_slotsOf_iff.1 listed'
        rw [here] at held
        obtain rfl := Option.some.inj (held'.symm.trans held)
        obtain rfl := own'.symm.trans own
        obtain rfl := Option.some.inj (atToken.symm.trans stored')
        rw [right, written, if_pos rfl, if_pos ⟨rfl, numbered.symm⟩]
        exact graded.symm
      · have differs : ¬(r.token = s.token ∧ k = slot.sequence) := by
          rintro ⟨token, rfl⟩
          have found' := before.findByToken?_iff.2 ⟨(before.session_id stored').symm ▸ stored', token.symm⟩
          obtain rfl := Option.some.inj (found'.symm.trans found)
          rw [← before.session_id stored'] at listed
          exact here (congrArg Slot.id (before.slot_unique atToken listed listed' numbered.symm))
        rw [right, written, if_neg here, if_neg differs]
        exact logged.graded stored' ongoing listed
  | @opened terms drawn unmarked opens fresh =>
    obtain ⟨rfl, rfl⟩ | ⟨old, stored⟩ := find?_opened_eq_some.1 stored
    · rw [before.slotsOf_opened_self] at listed
      rw [verdict_of_opens (by simp [opens, opening])]
      exact congrArg (Option.any _) (before.get?_answers_of_mem_slotsFor listed)
    · rw [before.slotsOf_opened_of_ne old] at listed
      have other : terms.token ≠ s.token := by
        intro same
        rw [same, before.token_iff.2 ⟨s, stored, rfl⟩] at fresh
        cases fresh
      rw [verdict_of_not_opens (by simpa [opens] using other), unmarked, Option.none_or]
      exact logged.graded stored ongoing listed

/-- **A turn keeps log and tables together.** -/
theorem logged (effect : e.Effect t u) (before : t.Consistent) (after : u.Consistent) (evolves : t.Evolves u)
    (logged : t.Logged log) : u.Logged (e :: log) where
  opened := effect.exists_opens logged
  marked := by
    intro e' rest suffix token k right mark
    rcases List.suffix_cons_iff.1 suffix with eq | suffix
    · cases eq
      exact effect.exists_opens_of_mark before logged mark
    · exact logged.marked suffix mark
  graded := effect.graded before after evolves logged

end Entry.Effect

/-- If a token was given out at most once, all that was written for it counts. -/
theorem Tables.Logged.verdict_eq {t : Tables} {log : List Entry} (logged : t.Logged log) {token : String}
    (once : log.countP (·.opens token) ≤ 1) (k : Int) : verdict log token k = log.findSome? (·.mark? token k) := by
  have marked := @logged.marked
  clear logged
  induction log with
  | nil => rfl
  | cons e log ih =>
    rw [List.countP_cons] at once
    cases opens : e.opens token with
    | false =>
      rw [verdict_of_not_opens opens, List.findSome?_cons, ih (by omega) fun suffix => marked (suffix.trans (List.suffix_cons e log))]
      cases e.mark? token k <;> rfl
    | true =>
      have unopened : ∀ e' ∈ log, ¬e'.opens token = true := by
        rw [opens] at once
        exact List.countP_eq_zero.1 (by simpa using once)
      have unmarked : ∀ e' ∈ log, e'.mark? token k = none := by
        intro e' listed
        obtain ⟨newer, older, rfl⟩ := List.append_of_mem listed
        cases mark : e'.mark? token k with
        | none => rfl
        | some right =>
          obtain ⟨opener, earlier, gave⟩ := marked (List.suffix_append (e :: newer) (e' :: older)) mark
          exact absurd gave (unopened opener (by simp [earlier]))
      rw [verdict_of_opens opens, List.findSome?_cons, Entry.mark?_of_opens opens]
      exact (List.findSome?_eq_none_iff.2 unmarked).symm

namespace Course

theorem effect_take (c : Course) (x : Turn) : ∃ e, (c.take x).log = e :: c.log ∧ e.Effect c.tables (c.take x).tables :=
  ⟨_, rfl, Entry.effect_of_settles (c.world.settles_perform x.operation x.clock)⟩

theorem logged_play {c : Course} (valid : c.tables.Valid) (logged : c.tables.Logged c.log) (turns : List Turn) :
    (c.play turns).tables.Logged (c.play turns).log := by
  induction turns generalizing c with
  | nil => exact logged
  | cons x turns ih =>
    have follows := World.follows_perform valid x.fits x.clock
    obtain ⟨e, log, effect⟩ := c.effect_take x
    refine ih (c := c.take x) follows.valid ?_
    rw [log]
    exact effect.logged valid.consistent follows.valid.consistent follows.evolves logged

end Course

end Proctor
