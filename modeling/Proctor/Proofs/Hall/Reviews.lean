import Proctor.Proofs.Hall.Sheets
import Proctor.Proofs.Hall.Stock

/-!
# Reviews that are made while others act

A review is put together in several accesses after its caller has found that the session has ended. From
then on nothing can keep the caller from it (`reviews_play`): whatever others do and whatever the clock
shows, it gets the review that anybody gets at any later time.
-/

set_option autoImplicit false

namespace Proctor.Hall

open Call

variable {h : Hall} {i : Nat} {token : String} {rest : Call Exam.Review} {r : Exam.Review} {d : Deed} {id : Int}

/-- Caller `i` has found that its session has ended: the next thing is to read the slots, or it has read them. -/
def Checked (h : Hall) (i : Nat) : Prop :=
  ∃ id, h.access? i = some (.sheet id) ∨ ∃ d ∈ (h.view i).deeds, d.access = .sheet id

theorem Checked.act (checked : h.Checked i) (x : Event) : (h.act x).Checked i := by
  obtain ⟨id, waits | ⟨d, listed, read⟩⟩ := checked
  · exact ⟨id, h.access?_act x waits⟩
  · exact ⟨id, .inr ⟨d, (h.deeds_act x i).subset listed, read⟩⟩

theorem Checked.play (checked : h.Checked i) (events : List Event) : (h.play events).Checked i := by
  induction events generalizing h with
  | nil => exact checked
  | cons x events ih => exact ih (checked.act x)

theorem checked_of_not_unread (read : ¬Exam.Unread (h.view i)) : h.Checked i := by
  simp only [Exam.Unread, not_forall, not_not] at read
  obtain ⟨d, listed, id, access⟩ := read
  exact ⟨id, .inr ⟨d, listed, access⟩⟩

/-- What holds in a hall at any time in which reviews are made. -/
structure Presenting (h : Hall) : Prop where
  sound : h.Sound
  stocked : h.world.Stocked
  keeps : h.Keeps World.Stocks
  comes : h.ComesTo fun o => o.Presents
  ends : ∀ token, h.EndsWithin (.detail token) 6

namespace Presenting

theorem play (p : h.Presenting) (events : List Event) : (h.play events).Presenting := by
  obtain ⟨stocks, keeps⟩ := stocks_play p.keeps events
  exact {
    sound := (p.sound.play events).1
    stocked := p.stocked.of_stocks stocks
    keeps := keeps
    comes := p.sound.comesTo_play (fun o => o.Presents) Exam.Operation.presents_of_rests
      (fun fits first => Exam.Operation.traces_presents fits first) p.comes events
    ends := fun token => EndsWithin.play (Exam.ends_detail token) (p.ends token) events }

/-- A caller who has read the slots does not fail. -/
theorem not_failed (p : h.Presenting) (checked : h.Checked i) {e : Error} :
    h.callers[i]? ≠ some ⟨.detail token, .failed e⟩ := by
  intro here
  obtain unread | faulty : Exam.Unread (h.view i) ∨ Exam.Faulty h.world := p.comes here
  · obtain ⟨id, waits | ⟨d, listed, read⟩⟩ := checked
    · simp only [access?, here] at waits
      cases waits
    · exact unread d listed id read
  · exact Exam.not_faulty p.stocked faulty

/-- A caller who has passed its check has its review after six accesses at most. -/
theorem exists_done (p : h.Presenting) (here : h.callers[i]? = some ⟨.detail token, rest⟩) (checked : h.Checked i)
    {events : List Event} (turns : 6 ≤ events.countP (·.isOf i)) :
    ∃ r, (h.play events).callers[i]? = some ⟨.detail token, .done r⟩ := by
  obtain ⟨rest', there, ended⟩ := comes_play (fun _ => trivial) here (p.ends token here) events
  rw [Nat.sub_eq_zero_of_le turns] at ended
  cases rest' with
  | done r => exact ⟨r, there⟩
  | failed e => exact absurd there ((p.play events).not_failed (checked.play events))
  | step q next => cases ended

/-- The world tells the review of which a caller has read the slots, and told it then. -/
theorem exists_shows_of_read (p : h.Presenting) (here : h.callers[i]? = some ⟨.detail token, rest⟩) (listed : d ∈ (h.view i).deeds)
    (read : d.access = .sheet id) : ∃ r, r.session.token = token ∧ d.before.Shows r ∧ h.world.Shows r := by
  -- let the caller go on alone until it has the review
  let more := List.replicate 6 (Event.acts i h.world.now)
  have turns : 6 ≤ more.countP (·.isOf i) := by simp [more, Event.isOf]
  obtain ⟨r, there⟩ := p.exists_done here ⟨id, .inr ⟨d, listed, read⟩⟩ turns
  obtain ⟨named, shows, -, earlier⟩ : Exam.Reviews token (.ok r) ((h.play more).view i) := (p.play more).comes there
  have told := earlier d ((h.deeds_play more i).subset listed) id read
  have stored : h.tables.find? r.session.id = some r.session := by
    obtain ⟨newer, older, log⟩ := List.append_of_mem (List.mem_filter.1 listed).1
    have recorded := p.sound.recorded
    rw [log] at recorded
    have between := recorded.upTo.step.1.trans recorded.upTo.step.2.valid recorded.follows
    exact between.evolves.ended told.stored told.finished
  refine ⟨r, named, told, stored, told.finished, ?_⟩
  rw [← World.joined_of_follows (p.sound.follows_play more) stored told.finished]
  exact shows.items

/-- There is a review for every caller who has passed its check. -/
theorem exists_shows (p : h.Presenting) (here : h.callers[i]? = some ⟨.detail token, rest⟩) (checked : h.Checked i) :
    ∃ r, r.session.token = token ∧ h.world.Shows r := by
  obtain ⟨id, waits | ⟨d, listed, read⟩⟩ := checked
  · -- the caller reads the slots now
    let g := h.play [.acts i h.world.now]
    obtain ⟨o, next, here'⟩ := exists_of_access? waits
    cases here.symm.trans here'
    have eq : g = h.acted i h.world.now next := act_acts here
    have there : g.callers[i]? = some _ := eq ▸ callers_acted_self here
    have listed : ⟨i, { h.world with now := h.world.now }, .sheet id⟩ ∈ (g.view i).deeds := by
      rw [eq, view_acted_self]
      exact List.mem_cons_self
    obtain ⟨r, named, shows, -⟩ := (p.play [.acts i h.world.now]).exists_shows_of_read there listed rfl
    exact ⟨r, named, shows⟩
  · obtain ⟨r, named, -, shows⟩ := p.exists_shows_of_read here listed read
    exact ⟨r, named, shows⟩

/-- Nothing that happens later changes the review that a caller gets. -/
theorem eq_of_done (p : h.Presenting) (shows : h.world.Shows r) {r' : Exam.Review} {events : List Event}
    (done : (h.play events).callers[i]? = some ⟨.detail r.session.token, .done r'⟩) : r' = r := by
  obtain ⟨named, shows', -⟩ : Exam.Reviews r.session.token (.ok r') ((h.play events).view i) := (p.play events).comes done
  have consistent := (p.play events).sound.valid.consistent
  exact (shows.later (p.sound.follows_play events)).eq consistent shows' named

/-- From the check of a caller on, its review is settled. -/
theorem settled (p : h.Presenting) (here : h.callers[i]? = some ⟨.detail token, rest⟩) (checked : h.Checked i)
    (named : r.session.token = token) (shows : h.world.Shows r) (more : List Event) :
    let g := h.play more
    (∀ clock, (g.world.perform (.detail token) clock).1 = .ok r) ∧ g.error? i = none ∧
      (∀ r', g.callers[i]? = some ⟨.detail token, .done r'⟩ → r' = r) ∧
      (6 ≤ more.countP (·.isOf i) → g.callers[i]? = some ⟨.detail token, .done r⟩) := by
  subst named
  have p' := p.play more
  refine ⟨(shows.later (p.sound.follows_play more)).perform_detail p'.sound.valid, ?_, fun r' => p.eq_of_done shows, fun turns => ?_⟩
  · by_contra failed
    obtain ⟨e, failed⟩ := Option.ne_none_iff_exists'.1 failed
    obtain ⟨o, there⟩ := exists_of_error? failed
    -- a caller does not change its operation
    obtain ⟨rest', there', -⟩ := comes_play (fun _ => trivial) here (p.ends _ here) more
    cases there.symm.trans there'
    exact p'.not_failed (checked.play more) there
  · obtain ⟨r', there⟩ := p.exists_done here checked turns
    rwa [p.eq_of_done shows there] at there

end Presenting

theorem presenting_play (questions : List Question) (now : Instant) (quota : Option Quota) (events : List Event) :
    ((start (.ofList questions) now quota).play events).Presenting := by
  refine Presenting.play ?_ events
  exact {
    sound := sound_start _ now quota
    stocked := World.stocked_start (Catalog.keyed_ofList questions) now quota
    keeps := fun here => by cases here
    comes := fun here => by cases here
    ends := fun token i rest here => by cases here }

/-- **Nothing comes between a caller and its review**, in whatever order the callers act and whatever the clock shows.
Once the caller has found that its session has ended, there is one review `r` of this session. It has the sequences from 1 up
to the total in this order, and if the session is completed its count is that of the right items.
At any later time `detail` gives `r` to anybody; the caller does not fail, gets no other review,
and has `r` after six accesses of its own at most. Whoever has a review has passed this check. -/
theorem reviews_play (questions : List Question) (now : Instant) (quota : Option Quota) (events : List Event) :
    let h := (start (.ofList questions) now quota).play events
    (∀ {i token r}, h.callers[i]? = some ⟨.detail token, .done r⟩ → h.Checked i) ∧
    ∀ {i token rest}, h.callers[i]? = some ⟨.detail token, rest⟩ → h.Checked i →
      ∃ r : Exam.Review, r.session.token = token ∧ (r.session.status = .completed ∨ r.session.status = .timeout) ∧
        r.items.map (·.sequence) = (List.range r.session.total.toNat).map (fun k : Nat => (k : Int) + 1) ∧
        (r.session.status = .completed → r.session.correctCount = some (r.items.countP (·.isCorrect) : Int)) ∧
        ∀ more : List Event,
          let g := h.play more
          (∀ clock, (g.world.perform (.detail token) clock).1 = .ok r) ∧ g.error? i = none ∧
            (∀ r', g.callers[i]? = some ⟨.detail token, .done r'⟩ → r' = r) ∧
            (6 ≤ more.countP (·.isOf i) → g.callers[i]? = some ⟨.detail token, .done r⟩) := by
  intro h
  have p : h.Presenting := presenting_play questions now quota events
  constructor
  · intro i token r told
    obtain ⟨-, -, read, -⟩ : Exam.Reviews token (.ok r) (h.view i) := p.comes told
    exact checked_of_not_unread read
  intro i token rest here checked
  obtain ⟨r, named, shows⟩ := p.exists_shows here checked
  have valid := p.sound.valid
  refine ⟨r, named, shows.status valid, shows.map_sequence valid.consistent, shows.correctCount_eq valid, ?_⟩
  exact fun more => p.settled here checked named shows more

/-- A session is completed before somebody looks at it who wants its review, and from then on this caller gets the review. -/
theorem reviews_play_of_completed :
    let h := Sample.starts.play (Sample.opens ++ [.enters (.complete "T") rfl, .enters (.detail "T") rfl] ++ Sample.turns [1, 1, 1, 2, 2])
    h.access? 2 = some (.sheet 1) ∧ ∃ r : Exam.Review, r.session.token = "T" ∧ ∀ more : List Event,
      6 ≤ more.countP (·.isOf 2) → (h.play more).callers[2]? = some ⟨.detail "T", .done r⟩ := by
  intro h
  have waits : h.access? 2 = some (.sheet 1) := by decide +kernel
  have here : h.callers[2]? = some ⟨.detail "T", _⟩ := rfl
  obtain ⟨-, reviews⟩ := reviews_play _ ⟨0, false⟩ none _
  obtain ⟨r, named, -, -, -, settled⟩ := reviews here ⟨1, .inl waits⟩
  exact ⟨waits, r, named, fun more => (settled more).2.2.2⟩

end Proctor.Hall
