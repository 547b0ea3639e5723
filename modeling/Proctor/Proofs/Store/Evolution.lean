import Proctor.Proofs.Store.Lawful

/-!
# How sessions go on

`t.Evolves u` says what may have become of the sessions of `t` in a later state `u`: one that
has ended is still there with all its rows, an ongoing one is the same, has ended or is gone,
and what is gone does not come back. Each change of consistent tables is such a step, and the
steps add up (`Evolves.trans`).
-/

set_option autoImplicit false

namespace Proctor.Tables

/-- The tables `u` can follow on `t`. -/
structure Evolves (t u : Tables) : Prop where
  lastSession_le : t.lastSession ≤ u.lastSession
  lastSlot_le : t.lastSlot ≤ u.lastSlot
  /-- A session that has ended stays. -/
  ended : ∀ {id s}, t.find? id = some s → s.status ≠ .ongoing → u.find? id = some s
  /-- So do its answers. -/
  ended_answers : ∀ {id s}, t.find? id = some s → s.status ≠ .ongoing →
    ∀ slot ∈ t.slotsOf id, u.answers.get? slot.id = t.answers.get? slot.id
  /-- A session that is still there has the same terms, the same total and the same slots. -/
  terms : ∀ {id s s'}, t.find? id = some s → u.find? id = some s' → s'.toTerms = s.toTerms ∧ s'.total = s.total
  slots : ∀ {id s s'}, t.find? id = some s → u.find? id = some s' → u.slotsOf id = t.slotsOf id
  /-- Only an ongoing session changes, and only by being completed or timed out. -/
  status : ∀ {id s s'}, t.find? id = some s → u.find? id = some s' →
    s' = s ∨ s.status = .ongoing ∧ (s'.status = .completed ∨ s'.status = .timeout)
  /-- A session that is gone does not come back. -/
  gone : ∀ {id}, id ≤ t.lastSession → t.find? id = none → u.find? id = none
  /-- Nor does a slot. -/
  gone_slots : ∀ {k}, k ≤ t.lastSlot → t.slots.get? k = none → u.slots.get? k = none

variable {t u v : Tables}

namespace Evolves

theorem refl (t : Tables) : t.Evolves t where
  lastSession_le := Int.le_refl _
  lastSlot_le := Int.le_refl _
  ended := fun stored _ => stored
  ended_answers := fun _ _ _ _ => rfl
  terms := fun stored stored' => by
    obtain rfl := Option.some.inj (stored.symm.trans stored')
    exact ⟨rfl, rfl⟩
  slots := fun _ _ => rfl
  status := fun stored stored' => .inl (Option.some.inj (stored'.symm.trans stored))
  gone := fun _ missing => missing
  gone_slots := fun _ missing => missing

/-- A session that is there at the end was there all the time. -/
theorem between (h : t.Consistent) (tu : t.Evolves u) (uv : u.Evolves v) {id : Int} {s s'' : Session}
    (stored : t.find? id = some s) (stored'' : v.find? id = some s'') : ∃ s', u.find? id = some s' := by
  cases stored' : u.find? id with
  | some s' => exact ⟨s', rfl⟩
  | none =>
    have le : id ≤ u.lastSession := Int.le_trans (h.session_le stored) tu.lastSession_le
    rw [uv.gone le stored'] at stored''
    cases stored''

theorem trans (h : t.Consistent) (tu : t.Evolves u) (uv : u.Evolves v) : t.Evolves v where
  lastSession_le := Int.le_trans tu.lastSession_le uv.lastSession_le
  lastSlot_le := Int.le_trans tu.lastSlot_le uv.lastSlot_le
  ended := fun stored finished => uv.ended (tu.ended stored finished) finished
  ended_answers := by
    intro id s stored finished slot listed
    have stored' := tu.ended stored finished
    rw [← tu.slots stored stored'] at listed
    rw [uv.ended_answers stored' finished slot listed]
    rw [tu.slots stored stored'] at listed
    exact tu.ended_answers stored finished slot listed
  terms := by
    intro id s s'' stored stored''
    obtain ⟨s', stored'⟩ := between h tu uv stored stored''
    obtain ⟨terms, total⟩ := tu.terms stored stored'
    obtain ⟨terms', total'⟩ := uv.terms stored' stored''
    exact ⟨terms'.trans terms, total'.trans total⟩
  slots := by
    intro id s s'' stored stored''
    obtain ⟨s', stored'⟩ := between h tu uv stored stored''
    exact (uv.slots stored' stored'').trans (tu.slots stored stored')
  status := by
    intro id s s'' stored stored''
    obtain ⟨s', stored'⟩ := between h tu uv stored stored''
    rcases tu.status stored stored' with rfl | ⟨ongoing, finished⟩
    · exact uv.status stored' stored''
    · rcases uv.status stored' stored'' with rfl | ⟨ongoing', -⟩
      · exact .inr ⟨ongoing, finished⟩
      · rw [ongoing'] at finished
        rcases finished with finished | finished <;> cases finished
  gone := fun le missing => uv.gone (Int.le_trans le tu.lastSession_le) (tu.gone le missing)
  gone_slots := fun le missing => uv.gone_slots (Int.le_trans le tu.lastSlot_le) (tu.gone_slots le missing)

/-- A new session leaves the others alone. -/
theorem opened (h : t.Consistent) {terms : Terms} {drawn : List Drawn} : t.Evolves (t.opened terms drawn) := by
  have same : ∀ {id}, id ≤ t.lastSession → (t.opened terms drawn).find? id = t.find? id := by
    intro id le
    rw [find?_opened, if_neg (by omega)]
  have slots : ∀ {id}, id ≤ t.lastSession → (t.opened terms drawn).slotsOf id = t.slotsOf id := by
    intro id le
    exact h.slotsOf_opened_of_ne (by omega)
  constructor
  case lastSession_le =>
    show t.lastSession ≤ t.lastSession + 1
    omega
  case lastSlot_le =>
    show t.lastSlot ≤ t.lastSlot + drawn.length
    omega
  case ended => exact fun stored _ => (same (h.session_le stored)).trans stored
  case ended_answers => exact fun _ _ _ _ => rfl
  case terms =>
    intro id s s' stored stored'
    rw [same (h.session_le stored)] at stored'
    exact (refl t).terms stored stored'
  case slots => exact fun stored _ => slots (h.session_le stored)
  case status =>
    intro id s s' stored stored'
    rw [same (h.session_le stored)] at stored'
    exact (refl t).status stored stored'
  case gone => exact fun le missing => (same le).trans missing
  case gone_slots =>
    intro k le missing
    apply Option.eq_none_iff_forall_ne_some.2
    intro slot held
    rcases h.get?_slots_opened.1 held with ⟨listed, rfl⟩ | held
    · have := (bounds_of_mem_slotsFor listed).2.1
      omega
    · rw [missing] at held
      cases held

/-- An ongoing session that ends keeps its terms and its slots. -/
theorem ending {id : Int} {s s' : Session} {grades : List Bool} (stored : t.find? id = some s)
    (ongoing : s.status = .ongoing) (ends : s.Ends grades s') : t.Evolves (t.ended id s') := by
  obtain ⟨terms, -, total, finished⟩ := ends.frame
  have same : ∀ {other}, other ≠ id → (t.ended id s').find? other = t.find? other := by
    intro other ne
    rw [find?_ended, if_neg ne]
  have here : (t.ended id s').find? id = some s' := by rw [find?_ended, if_pos rfl]
  constructor
  case lastSession_le => exact Int.le_refl _
  case lastSlot_le => exact Int.le_refl _
  case ended =>
    intro other r stored' done
    rw [same, stored']
    rintro rfl
    obtain rfl := Option.some.inj (stored.symm.trans stored')
    exact done ongoing
  case ended_answers => exact fun _ _ _ _ => rfl
  case terms =>
    intro other r r' stored' stored''
    by_cases this : other = id
    · subst this
      obtain rfl := Option.some.inj (stored.symm.trans stored')
      obtain rfl := Option.some.inj (here.symm.trans stored'')
      exact ⟨terms, total⟩
    · rw [same this] at stored''
      exact (refl t).terms stored' stored''
  case slots => exact fun _ _ => rfl
  case status =>
    intro other r r' stored' stored''
    by_cases this : other = id
    · subst this
      obtain rfl := Option.some.inj (stored.symm.trans stored')
      obtain rfl := Option.some.inj (here.symm.trans stored'')
      exact .inr ⟨ongoing, finished⟩
    · rw [same this] at stored''
      exact (refl t).status stored' stored''
  case gone =>
    intro other le missing
    rw [same, missing]
    rintro rfl
    rw [stored] at missing
    cases missing
  case gone_slots => exact fun _ missing => missing

/-- The removal of an ongoing session leaves the others alone. -/
theorem removed (h : t.Consistent) {id : Int} {s : Session} (stored : t.find? id = some s) (ongoing : s.status = .ongoing) :
    t.Evolves (t.removed id s) := by
  have ne_of_ended : ∀ {other r}, t.find? other = some r → r.status ≠ .ongoing → other ≠ id := by
    rintro other r stored' finished rfl
    obtain rfl := Option.some.inj (stored.symm.trans stored')
    exact finished ongoing
  constructor
  case lastSession_le => exact Int.le_refl _
  case lastSlot_le => exact Int.le_refl _
  case ended =>
    intro other r stored' finished
    rw [find?_removed, if_neg (ne_of_ended stored' finished), stored']
  case ended_answers =>
    intro other r stored' finished slot listed
    exact h.get?_answers_removed_of_ne (ne_of_ended stored' finished) listed
  case terms => exact fun stored' stored'' => (refl t).terms stored' (find?_removed_eq_some.1 stored'').2
  case slots => exact fun _ stored'' => slotsOf_removed_of_ne (find?_removed_eq_some.1 stored'').1
  case status => exact fun stored' stored'' => (refl t).status stored' (find?_removed_eq_some.1 stored'').2
  case gone =>
    intro other le missing
    rw [find?_removed, missing]
    split <;> rfl
  case gone_slots =>
    intro k le missing
    apply Option.eq_none_iff_forall_ne_some.2
    intro slot held
    rw [(get?_slots_removed.1 held).1] at missing
    cases missing

/-- An answer to an ongoing session changes nothing else. -/
theorem answered (h : t.Consistent) {k : Int} {slot : Slot} {s : Session} {a? : Option Answer}
    {answers : Table Int Answer} (held : t.slots.get? k = some slot) (stored : t.find? slot.session = some s)
    (ongoing : s.status = .ongoing) (written : ∀ j, answers.get? j = if j = k then a? else t.answers.get? j) :
    t.Evolves { t with answers := answers } := by
  refine { refl t with ended_answers := ?_ }
  intro id r stored' finished other listed
  show answers.get? other.id = _
  rw [written, if_neg]
  refine h.id_ne_of_session_ne listed held ?_
  rintro rfl
  obtain rfl := Option.some.inj (stored.symm.trans stored')
  exact finished ongoing

/-- **Every change is a step of the evolution.** -/
theorem of_change (h : t.Consistent) (c : Change t u) : t.Evolves u := by
  cases c with
  | same => exact refl t
  | opened proper fresh => exact opened h
  | ended stored ongoing ends => exact ending stored ongoing ends
  | removed stored ongoing => exact removed h stored ongoing
  | answered a? held stored ongoing inTime written => exact answered h held stored ongoing written

end Evolves

/-- Tables that fit together, with lawful sessions. -/
structure Valid (t : Tables) : Prop where
  consistent : t.Consistent
  lawful : t.Lawful

theorem valid_empty : Valid ∅ := ⟨consistent_empty, lawful_empty⟩

theorem Valid.change (h : t.Valid) (c : Change t u) : u.Valid := ⟨h.consistent.change c, Lawful.change h.lawful h.consistent c⟩

variable {id : Int} {s : Session}

/-- The count of a completed session is that of the right answers that are stored for it. -/
theorem Valid.correctCount_eq (valid : t.Valid) (stored : t.find? id = some s) (completed : s.status = .completed) :
    s.correctCount = some ((t.answersOf id).countP (·.isCorrect) : Int) := by
  have lawful := valid.lawful stored
  obtain ⟨-, n, x, counted, -, tally, -, -⟩ := lawful.completed completed
  have few : ((t.answersOf id).map (·.isCorrect)).length < 0x80000000 := by
    have slots := valid.consistent.length_slotsOf stored
    have grades := t.length_gradesOf_le id
    have total : s.total ≤ 2147483647 := lawful.total_le
    rw [(t.map_isCorrect_answersOf id).length_eq]
    omega
  have count := Score.correct_tally few s.total
  rw [tally, List.count_eq_countP, List.countP_map] at count
  rw [counted, show n = _ from count]
  congr 3
  funext a
  simp

/-- The answers of a session that has ended stay. -/
theorem Evolves.answersOf_eq (tu : t.Evolves u) (stored : t.find? id = some s) (finished : s.status ≠ .ongoing) :
    u.answersOf id = t.answersOf id :=
  answersOf_congr (tu.slots stored (tu.ended stored finished)) fun slot listed => tu.ended_answers stored finished slot listed

end Proctor.Tables
