import Proctor.Proofs.Course.Scoring
import Proctor.Proofs.Exam.Fair
import Proctor.Proofs.Store.Filed
import Proctor.Proofs.Store.Orderly
import Proctor.Proofs.Table

/-!
# What becomes of a request

A request for a session is refused for the first of four reasons that holds of it (`Refusal`), and then nothing has
changed. If none of them holds, the session is opened as requested, and nothing else has changed (`Opens`).
`run_create` says so for any tables that accesses can lead to, any catalog and any random words.
-/

set_option autoImplicit false

namespace Proctor

/-- The question has the subject, the level and, if there is one, the topic of the scope. -/
def Question.IsOf (q : Question) (s : Scope) : Prop :=
  q.scope.subject = s.subject ∧ q.scope.level = s.level ∧ ∀ topic ∈ s.topic, q.scope.topic = some topic

instance (q : Question) (s : Scope) : Decidable (q.IsOf s) := inferInstanceAs (Decidable (_ ∧ _ ∧ _))

theorem Question.eligible_iff {q : Question} {s : Scope} : q.eligible s = true ↔ q.IsOf s := by
  unfold eligible IsOf
  cases s.topic <;> simp [and_assoc]

namespace Catalog

/-- The number of questions of the scope. -/
def available (c : Catalog) (s : Scope) : Nat := c.questions.values.countP (·.IsOf s)

theorem hasLevel_insert {c : Catalog} {q : Question} {subject level : Int} : (c.insert q).hasLevel subject level = true ↔
    c.hasLevel subject level = true ∨ q.scope.subject = subject ∧ q.scope.level = level := by
  simp only [hasLevel, insert, List.contains_iff_mem, List.mem_insert_iff, Prod.mk.injEq]
  exact or_comm.trans (or_congr_right (and_congr eq_comm eq_comm))

/-- A level is known if a question of it was put in. -/
theorem hasLevel_ofList {questions : List Question} {subject level : Int} :
    (ofList questions).hasLevel subject level = true ↔ ∃ q ∈ questions, q.scope.subject = subject ∧ q.scope.level = level := by
  have folded : ∀ (qs : List Question) (c : Catalog), (qs.foldl Catalog.insert c).hasLevel subject level = true ↔
      c.hasLevel subject level = true ∨ ∃ q ∈ qs, q.scope.subject = subject ∧ q.scope.level = level := by
    intro qs
    induction qs with
    | nil => simp
    | cons q qs ih =>
      intro c
      rw [List.foldl_cons, ih, hasLevel_insert, or_assoc, List.exists_mem_cons_iff]
  exact (folded questions ∅).trans (or_iff_right Bool.false_ne_true)

/-- The entries of a pool are questions of the scope. -/
theorem Keyed.exists_of_mem_pool {c : Catalog} (keyed : c.Keyed) {s : Scope} {e : PoolEntry} (listed : e ∈ c.pool s) :
    ∃ q, c.get? e.question = some q ∧ q.IsOf s ∧ q.kind = e.kind := by
  obtain ⟨q, kept, rfl⟩ := List.mem_map.1 listed
  obtain ⟨held, eligible⟩ := List.mem_filter.1 kept
  obtain ⟨id, found⟩ := Table.mem_values.1 held
  have same : q.id = id := keyed id q found
  exact ⟨q, same ▸ found, Question.eligible_iff.1 eligible, rfl⟩

theorem Keyed.nodup_pool {c : Catalog} (keyed : c.Keyed) (s : Scope) : ((c.pool s).map (·.question)).Nodup := by
  have once : (c.questions.values.map (·.id)).Nodup := Table.nodup_map_values keyed
  have entries : (c.pool s).map (·.question) = (c.questions.values.filter (·.eligible s)).map (·.id) := by
    simp [pool]
  rw [entries]
  exact once.sublist (List.filter_sublist.map _)

/-- As many different questions can be drawn from a pool as the catalog has of the scope. -/
theorem Keyed.length_distinct_pool {c : Catalog} (keyed : c.Keyed) (s : Scope) :
    (Draw.distinct (c.pool s)).length = c.available s := by
  rw [Draw.length_distinct, Draw.available_of_nodup (keyed.nodup_pool s), pool, List.length_map, available, List.countP_eq_length_filter]
  congr 2
  funext q
  exact Bool.eq_iff_iff.2 (Question.eligible_iff.trans decide_eq_true_iff.symm)

end Catalog

/-- A question of the subject and of the level of the scope is among these. -/
def Scope.Registered (s : Scope) (questions : List Question) : Prop :=
  ∃ q ∈ questions, q.scope.subject = s.subject ∧ q.scope.level = s.level

namespace Request

/-- The numbers of the request are within their bounds. -/
def Bounded (r : Request) : Prop := (1 ≤ r.minutes ∧ r.minutes ≤ 480) ∧ 1 ≤ r.count

/-- The terms of a session that is opened as requested, and starts now. -/
def terms (r : Request) (user : Uuid) (token : String) (now : Instant) : Terms :=
  ⟨token, user, r.scope, now, r.minutes, now.plusMinutes r.minutes⟩

end Request

namespace Tables

variable {t : Tables} {terms : Terms} {drawn : List Drawn}

theorem create_of_known (known : t.tokens.get? terms.token ≠ none) : t.create terms drawn = (.error .duplicateToken, t) := by
  have taken : t.tokens.contains terms.token = true := Option.isSome_iff_ne_none.2 known
  simp [create, taken]

theorem create_of_fresh (fresh : t.tokens.get? terms.token = none) (proper : Draw.Proper drawn) :
    t.create terms drawn = (.ok (t.opening terms drawn), t.opened terms drawn) := by
  have sequences : (drawn.map (·.sequence)).Nodup := by
    rw [proper.numbered]
    exact List.nodup_range.map fun i j (eq : (i : Int) + 1 = j + 1) => by omega
  unfold create
  rw [if_neg (by simp [Table.contains, fresh]), if_neg (not_not.2 sequences)]
  rfl

end Tables

namespace Exam

open Call

/-- Why a request is refused: the first that holds of broken bounds, a scope without a level, too few questions,
and a token that is in use. -/
inductive Refusal (w : World) (questions : List Question) (r : Request) (token : String) : Error → Prop where
  | bounds (broken : ¬r.Bounded) : Refusal w questions r token (.input (.outOfBounds r.faults))
  | scope (bounded : r.Bounded) (unknown : ¬r.scope.Registered questions) :
      Refusal w questions r token (.input (.outsideScope r.scope.subject r.scope.level))
  | pool (bounded : r.Bounded) (known : r.scope.Registered questions) (few : w.catalog.available r.scope < r.count) :
      Refusal w questions r token (.insufficientPool r.count.toNat (w.catalog.available r.scope))
  | token (bounded : r.Bounded) (known : r.scope.Registered questions) (enough : r.count ≤ w.catalog.available r.scope)
      (used : w.tables.Uses token) : Refusal w questions r token (.internal .duplicateToken)

/-- In `u` there is one more session than in `w`, opened for the user as requested, and nothing else has changed. -/
structure Opens (w : World) (user : Uuid) (r : Request) (token : String) (s : Session) (u : World) : Prop where
  terms : s.toTerms = r.terms user token w.now
  ongoing : s.status = .ongoing ∧ s.finishedAt = none ∧ s.correctCount = none ∧ s.score = none
  total : s.total = r.count
  /-- The session is stored in addition to those that there were. -/
  new : w.tables.find? s.id = none
  sessions : ∀ id, u.tables.find? id = if id = s.id then some s else w.tables.find? id
  tokens : ∀ name, u.tables.tokens.get? name = if name = token then some s.id else w.tables.tokens.get? name
  /-- Its slots are numbered from 1, and hold different questions of the scope. -/
  sequences : (u.tables.slotsOf s.id).map (·.sequence) = (List.range r.count.toNat).map fun i : Nat => (i : Int) + 1
  distinct : ((u.tables.slotsOf s.id).map (·.question)).Nodup
  offered : ∀ slot ∈ u.tables.slotsOf s.id, ∃ q, w.catalog.get? slot.question = some q ∧ q.IsOf r.scope ∧ q.kind = slot.kind
  unanswered : ∀ slot ∈ u.tables.slotsOf s.id, u.tables.answers.get? slot.id = none
  /-- They are there in addition to those that there were. -/
  newSlots : ∀ slot ∈ u.tables.slotsOf s.id, w.tables.slots.get? slot.id = none
  slots : ∀ k slot, u.tables.slots.get? k = some slot ↔
    w.tables.slots.get? k = some slot ∨ slot ∈ u.tables.slotsOf s.id ∧ slot.id = k
  answers : u.tables.answers = w.tables.answers
  counters : u.tables.lastSession = w.tables.lastSession + 1 ∧ u.tables.lastSlot = w.tables.lastSlot + r.count
  rest : u.catalog = w.catalog ∧ u.now = w.now ∧ u.quota = w.quota

variable {w : World} {questions : List Question} {user : Uuid} {r : Request} {chance : Chance}

/-- A new session with a new token and with questions that were drawn from the pool is opened as requested. -/
theorem opens_opened (filed : w.tables.Filed) (keyed : w.catalog.Keyed) {drawn : List Drawn} {used : Nat} (bounded : r.Bounded)
    (drew : Draw.draw (w.catalog.pool r.scope) r.count.toNat chance.words = .ok (drawn, used)) :
    let terms := r.terms user chance.token w.now
    Opens w user r chance.token (w.tables.opening terms drawn) { w with tables := w.tables.opened terms drawn } := by
  intro terms
  obtain ⟨-, length, proper⟩ := Draw.draw_eq_ok drew
  have count : (drawn.length : Int) = r.count := by
    have := bounded.2
    omega
  have own : (w.tables.opened terms drawn).slotsOf (w.tables.lastSession + 1) =
      w.tables.slotsFor (w.tables.lastSession + 1) drawn := filed.slotsOf_opened_self
  constructor
  case terms => rfl
  case ongoing => exact ⟨rfl, rfl, rfl, rfl⟩
  case total => exact count
  case new => exact filed.find?_next
  case sessions => exact fun id => Tables.find?_opened
  case tokens => exact fun name => Table.get?_insert _ _ _ _
  case sequences =>
    show ((w.tables.opened terms drawn).slotsOf (w.tables.lastSession + 1)).map _ = _
    rw [own, Tables.map_sequence_slotsFor, proper.numbered, length]
  case distinct =>
    show (((w.tables.opened terms drawn).slotsOf (w.tables.lastSession + 1)).map _).Nodup
    rw [own, Tables.map_question_slotsFor]
    exact proper.distinct
  case offered =>
    show ∀ slot ∈ (w.tables.opened terms drawn).slotsOf (w.tables.lastSession + 1), _
    rw [own]
    intro slot listed
    obtain ⟨i, d, at_i, rfl⟩ := Tables.mem_slotsFor.1 listed
    exact keyed.exists_of_mem_pool (Draw.mem_of_draw_eq_ok drew (List.mem_of_getElem? at_i))
  case unanswered =>
    show ∀ slot ∈ (w.tables.opened terms drawn).slotsOf (w.tables.lastSession + 1), _
    rw [own]
    exact fun slot listed => filed.get?_answers_of_mem_slotsFor listed
  case newSlots =>
    show ∀ slot ∈ (w.tables.opened terms drawn).slotsOf (w.tables.lastSession + 1), _
    rw [own]
    intro slot listed
    refine Option.eq_none_iff_forall_ne_some.2 fun old held => ?_
    have := filed.slot_le held
    have := (Tables.bounds_of_mem_slotsFor listed).2.1
    omega
  case slots =>
    intro k slot
    show _ ↔ _ ∨ slot ∈ (w.tables.opened terms drawn).slotsOf (w.tables.lastSession + 1) ∧ _
    rw [own]
    exact filed.get?_slots_opened.trans or_comm
  case answers => rfl
  case counters => exact ⟨rfl, by rw [← count]; rfl⟩
  case rest => exact ⟨rfl, rfl, rfl⟩

theorem run_within (bounded : r.Bounded) : (within r.faults).run World.handle w = (.ok (), w) := by
  simp only [within, faults_eq_nil_iff.2 bounded]
  rfl

/-- A request within its bounds, of a scope that has a level, comes to the draw. -/
theorem run_create_of_known (stocked : w.catalog = .ofList questions) (bounded : r.Bounded) (known : r.scope.Registered questions) :
    (create user r chance).run World.handle w =
      match Draw.draw (w.catalog.pool r.scope) r.count.toNat chance.words with
      | .ok (drawn, _) => w.handle (.create (r.terms user chance.token w.now) drawn)
      | .error e => (.error e, w) := by
  have level : w.catalog.hasLevel r.scope.subject r.scope.level = true := by
    rw [stocked]
    exact Catalog.hasLevel_ofList.2 known
  simp only [create, run_bind, run_within bounded, ask, run, World.handle, level, Bool.not_true, Bool.false_eq_true, if_false]
  cases Draw.draw (w.catalog.pool r.scope) r.count.toNat chance.words with
  | error e => rfl
  | ok drawn =>
    simp only [Call.ofExcept, Call.now, ask, run, World.handle]
    split <;> exact Eq.symm (by assumption)

/-- **A request is refused** for the first reason that holds of it, and nothing changes. -/
theorem run_create_of_refusal (filed : w.tables.Filed) (stocked : w.catalog = .ofList questions) {e : Error}
    (refusal : Refusal w questions r chance.token e) : (create user r chance).run World.handle w = (.error e, w) := by
  have keyed : w.catalog.Keyed := stocked ▸ Catalog.keyed_ofList questions
  have available := keyed.length_distinct_pool r.scope
  cases refusal with
  | bounds broken =>
    have faults : r.faults.isEmpty = false := by
      simpa using fun none => broken (faults_eq_nil_iff.1 none)
    simp only [create, run_bind, within, faults]
    rfl
  | scope bounded unknown =>
    have level : w.catalog.hasLevel r.scope.subject r.scope.level = false := by
      rw [stocked]
      exact eq_false_of_ne_true fun known => unknown (Catalog.hasLevel_ofList.1 known)
    simp only [create, run_bind, run_within bounded, ask, run, World.handle, level]
    rfl
  | pool bounded known few =>
    have positive := bounded.2
    rw [run_create_of_known stocked bounded known, Draw.draw_of_few (by omega) (by omega), available]
  | token bounded known enough used =>
    have positive := bounded.2
    obtain ⟨⟨drawn, _⟩, drew⟩ := Draw.exists_draw_eq_ok (by omega : 1 ≤ r.count.toNat)
      (by omega : r.count.toNat ≤ (Draw.distinct (w.catalog.pool r.scope)).length) chance.words
    have taken : w.tables.create (r.terms user chance.token w.now) drawn = (.error .duplicateToken, w.tables) :=
      Tables.create_of_known fun unknown => filed.get?_tokens_eq_none.1 unknown used
    rw [run_create_of_known stocked bounded known, drew]
    simp only [World.handle, taken]
    rfl

/-- **A request that nothing stands against** is carried out. -/
theorem run_create_of_fresh (filed : w.tables.Filed) (stocked : w.catalog = .ofList questions) (user : Uuid)
    (bounded : r.Bounded) (known : r.scope.Registered questions) (enough : r.count ≤ w.catalog.available r.scope)
    (fresh : ¬w.tables.Uses chance.token) :
    ∃ s u, (create user r chance).run World.handle w = (.ok s, u) ∧ Opens w user r chance.token s u := by
  have keyed : w.catalog.Keyed := stocked ▸ Catalog.keyed_ofList questions
  have available := keyed.length_distinct_pool r.scope
  have positive := bounded.2
  obtain ⟨⟨drawn, _⟩, drew⟩ := Draw.exists_draw_eq_ok (by omega : 1 ≤ r.count.toNat)
    (by omega : r.count.toNat ≤ (Draw.distinct (w.catalog.pool r.scope)).length) chance.words
  have proper := (Draw.draw_eq_ok drew).2.2
  have made : w.tables.create (r.terms user chance.token w.now) drawn = _ :=
    Tables.create_of_fresh (filed.get?_tokens_eq_none.2 fresh) proper
  refine ⟨_, _, ?_, opens_opened filed keyed bounded drew⟩
  rw [run_create_of_known stocked bounded known, drew]
  simp only [World.handle, made]
  rfl

/-- Of a request that is not refused, all conditions hold. -/
theorem exists_refusal_or (w : World) (questions : List Question) (r : Request) (token : String) :
    (∃ e, Refusal w questions r token e) ∨
      r.Bounded ∧ r.scope.Registered questions ∧ r.count ≤ w.catalog.available r.scope ∧ ¬w.tables.Uses token := by
  by_cases bounded : r.Bounded
  · by_cases known : r.scope.Registered questions
    · by_cases enough : r.count ≤ w.catalog.available r.scope
      · by_cases used : w.tables.Uses token
        · exact .inl ⟨_, .token bounded known enough used⟩
        · exact .inr ⟨bounded, known, enough, used⟩
      · exact .inl ⟨_, .pool bounded known (by omega)⟩
    · exact .inl ⟨_, .scope bounded known⟩
  · exact .inl ⟨_, .bounds bounded⟩

/-- **What becomes of a request.** Let the tables be such that accesses can lead to them, and let these questions have
been put into the catalog. A session is opened just if the numbers are within their bounds, the scope has a level,
the catalog has as many questions of the scope as are asked for, and no session has the token. Then it
is opened as requested, and else the first of these that fails is told; nothing else changes. -/
theorem run_create (reached : w.tables.Reached) (stocked : w.catalog = .ofList questions) (user : Uuid) (r : Request)
    (chance : Chance) :
    ((∃ s, ((create user r chance).run World.handle w).1 = .ok s) ↔
      r.Bounded ∧ r.scope.Registered questions ∧ r.count ≤ w.catalog.available r.scope ∧ ¬w.tables.Uses chance.token) ∧
    match (create user r chance).run World.handle w with
    | (.ok s, u) => Opens w user r chance.token s u
    | (.error e, u) => u = w ∧ Refusal w questions r chance.token e := by
  obtain ⟨e, refusal⟩ | ⟨bounded, known, enough, fresh⟩ := exists_refusal_or w questions r chance.token
  · rw [run_create_of_refusal reached.filed stocked refusal]
    refine ⟨⟨(by rintro ⟨_, ⟨⟩⟩), ?_⟩, rfl, refusal⟩
    rintro ⟨bounded, known, enough, fresh⟩
    cases refusal with
    | bounds broken => exact absurd bounded broken
    | scope _ unknown => exact absurd known unknown
    | pool _ _ few => omega
    | token _ _ _ used => exact absurd used fresh
  · obtain ⟨s, u, made, opens⟩ := run_create_of_fresh reached.filed stocked user bounded known enough fresh
    rw [made]
    exact ⟨⟨fun _ => ⟨bounded, known, enough, fresh⟩, fun _ => ⟨s, rfl⟩⟩, opens⟩

/-- After a session was opened, another one with a new token is opened as requested, with a choice and a matching in its slots, and one with the
same token is refused. -/
theorem run_create_of_second :
    let r : Request := ⟨⟨1, 1, none⟩, 30, 2⟩
    let choice : Question := ⟨7, ⟨1, 1, none⟩, "2 + 2", .choice ⟨⟨"3", "4", "5", "6"⟩, .b⟩⟩
    let matching : Question := ⟨8, ⟨1, 1, none⟩, "match", .matching ⟨[⟨1, "item"⟩], [⟨11, "slot"⟩], .ofList [(1, 11)]⟩⟩
    let first := (create Course.Sample.user r ⟨"T", []⟩).run World.handle (.start (.ofList [choice, matching]) ⟨0, false⟩ none)
    let w : World := ⟨first.2.tables, .ofList [choice, matching], ⟨0, false⟩, none⟩
    (∃ u, Opens w Course.Sample.user r "U" { Course.Sample.session 2 with token := "U", total := 2 } u ∧
      u.tables.slotsOf 2 = [⟨3, 2, 8, 1, .dragDrop⟩, ⟨4, 2, 7, 2, .singleChoice⟩]) ∧
      Refusal w [choice, matching] r "T" (.internal .duplicateToken) := by
  intro r choice matching first w
  have stocked : w.catalog = .ofList [choice, matching] := rfl
  have opened : ((create Course.Sample.user r ⟨"U", []⟩).run World.handle w).1 =
      .ok { Course.Sample.session 2 with token := "U", total := 2 } := by decide +kernel
  have slots : ((create Course.Sample.user r ⟨"U", []⟩).run World.handle w).2.tables.slotsOf 2 =
      [⟨3, 2, 8, 1, .dragDrop⟩, ⟨4, 2, 7, 2, .singleChoice⟩] := by decide +kernel
  have refused : ((create Course.Sample.user r ⟨"T", []⟩).run World.handle w).1 = .error (.internal .duplicateToken) := by
    decide +kernel
  have reached : first.2.tables.Reached := by
    unfold first
    exact .run .empty (create Course.Sample.user r ⟨"T", []⟩)
  clear_value first
  have fresh := (run_create (w := w) reached stocked Course.Sample.user r ⟨"U", []⟩).2
  have again := (run_create (w := w) reached stocked Course.Sample.user r ⟨"T", []⟩).2
  constructor
  · generalize (create Course.Sample.user r ⟨"U", []⟩).run World.handle w = outcome at fresh opened slots
    obtain ⟨_, u⟩ := outcome
    obtain rfl := opened
    exact ⟨u, fresh, slots⟩
  · generalize (create Course.Sample.user r ⟨"T", []⟩).run World.handle w = outcome at again refused
    obtain ⟨_, u⟩ := outcome
    obtain rfl := refused
    exact again.2

end Exam

end Proctor
