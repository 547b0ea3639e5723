import Proctor.Proofs.Course.Scoring
import Proctor.Proofs.Exam.Refusal
import Proctor.Proofs.Exam.Sheet
import Proctor.Proofs.Exam.Steady
import Proctor.Proofs.Question.Answering
import Proctor.Proofs.Store.Stock

/-!
# What a review is made of

The session of a review has ended, so neither its record nor its slots nor its answers change while the
review is put together from them. What a world tells of such a session (`World.Shows`) is the same at any
time, is what `detail` gives if nothing comes in between (`Shows.perform_detail`), and is what
`detail` gives among others (`traces_detail`).
-/

set_option autoImplicit false

namespace Proctor

namespace World

/-- The slots of a session with the questions and the answers that belong to them, as they are at one time. -/
def joined (w : World) (id : Int) : Exam.Joined where
  slots := w.tables.sheet id
  questions := w.catalog.getAll ((w.tables.sheet id).map (·.question))
  answers := w.tables.answersOf id

/-- The review is that of a session that has ended, as the world tells it. -/
structure Shows (w : World) (r : Exam.Review) : Prop where
  stored : w.tables.find? r.session.id = some r.session
  finished : r.session.status ≠ .ongoing
  items : (w.joined r.session.id).slots.mapM (w.joined r.session.id).reviewItem = .ok r.items

variable {w u : World} {id : Int} {s : Session} {r r' : Exam.Review}

/-- What belongs to a session that has ended stays. -/
theorem joined_of_follows (follows : w.Follows u) (stored : w.tables.find? id = some s) (finished : s.status ≠ .ongoing) :
    u.joined id = w.joined id := by
  have evolves := follows.follows.evolves
  have slots : u.tables.sheet id = w.tables.sheet id := by
    rw [Tables.sheet, evolves.slots stored (evolves.ended stored finished)]
    rfl
  simp only [joined, slots, follows.catalog, evolves.answersOf_eq stored finished]

theorem Shows.later (shows : w.Shows r) (follows : w.Follows u) : u.Shows r where
  stored := follows.follows.evolves.ended shows.stored shows.finished
  finished := shows.finished
  items := by
    rw [joined_of_follows follows shows.stored shows.finished]
    exact shows.items

/-- Of the session of a token there is one review. -/
theorem Shows.eq (consistent : w.tables.Consistent) (shows : w.Shows r) (shows' : w.Shows r')
    (token : r'.session.token = r.session.token) : r' = r := by
  have found := consistent.findByToken?_iff.2 ⟨shows.stored, rfl⟩
  have found' := consistent.findByToken?_iff.2 ⟨shows'.stored, token⟩
  obtain ⟨s, items⟩ := r
  obtain ⟨s', items'⟩ := r'
  obtain rfl : s' = s := Option.some.inj (found'.symm.trans found)
  obtain rfl : items' = items := Except.ok.inj (shows'.items.symm.trans shows.items)
  rfl

/-- Every slot has its question. -/
theorem Stocked.whole (stocked : w.Stocked) (id : Int) : (w.joined id).Whole := by
  intro slot listed
  obtain ⟨-, k, held⟩ := Tables.mem_slotsOf.1 (mem_sortBy.1 listed)
  obtain ⟨q, found, kind⟩ := stocked.offered held
  exact ⟨q, Exam.questionOf_of_get? stocked.keyed listed found, kind⟩

/-- So there is a review of every session that has ended. -/
theorem exists_shows (stocked : w.Stocked) (stored : w.tables.find? s.id = some s) (finished : s.status ≠ .ongoing) :
    ∃ items, w.Shows ⟨s, items⟩ := by
  obtain ⟨items, shown⟩ := Exam.exists_mapM_eq_ok (stocked.whole s.id).reviewItem
  exact ⟨items, stored, finished, shown⟩

end World

namespace Exam.Joined

variable {j : Joined} {slot : Slot} {item : ReviewItem}

/-- What a review item is made of. -/
theorem exists_of_reviewItem (made : j.reviewItem slot = .ok item) :
    ∃ q, j.questionOf slot = .ok q ∧ q.kind = slot.kind ∧ item = ⟨slot.sequence, slot.kind, q.content, j.answerOf? slot,
      (j.answerOf? slot).bind fun a => q.details.present a.value, q.details.present q.details.solution⟩ := by
  unfold reviewItem at made
  cases found : j.questionOf slot with
  | error e =>
    rw [found] at made
    cases made
  | ok q =>
    rw [found] at made
    change (q.detailsFor slot.kind >>= _) = _ at made
    cases fits : q.detailsFor slot.kind with
    | error e =>
      rw [fits] at made
      cases made
    | ok details =>
      obtain ⟨kind, rfl⟩ := Question.detailsFor_eq_ok_iff.1 fits
      rw [fits] at made
      cases made
      exact ⟨q, rfl, kind, rfl⟩

/-- An item of a review is numbered as its slot, and has the answer of the slot. -/
theorem eq_of_reviewItem (h : j.reviewItem slot = .ok item) : item.sequence = slot.sequence ∧ item.answer = j.answerOf? slot := by
  obtain ⟨q, -, -, rfl⟩ := exists_of_reviewItem h
  exact ⟨rfl, rfl⟩

end Exam.Joined

namespace World

variable {w : World} {s : Session} {slot : Slot} {r : Exam.Review}

namespace Shows

/-- The items have the sequences from 1 up to the total, in this order. -/
theorem map_sequence (shows : w.Shows r) (consistent : w.tables.Consistent) :
    r.items.map (·.sequence) = (List.range r.session.total.toNat).map fun k : Nat => (k : Int) + 1 := by
  rw [Exam.map_eq_of_mapM (fun _ _ made => (Exam.Joined.eq_of_reviewItem made).1) shows.items]
  show (w.tables.sheet _).map _ = _
  rw [consistent.sheet_eq shows.stored, consistent.sequences shows.stored]

/-- The right items are the right answers that are stored. -/
theorem countP_isCorrect (shows : w.Shows r) (consistent : w.tables.Consistent) :
    r.items.countP (·.isCorrect) = (w.tables.answersOf r.session.id).countP (·.isCorrect) := by
  have marks : r.items.map (·.isCorrect) = (w.tables.slotsOf r.session.id).map fun slot => w.tables.right slot.id := by
    rw [Exam.map_eq_of_mapM (k := fun slot => ((w.joined r.session.id).answerOf? slot).any (·.isCorrect)) ?_ shows.items]
    · show (w.tables.sheet _).map _ = _
      rw [consistent.sheet_eq shows.stored]
      refine List.map_congr_left fun slot listed => ?_
      rw [show (w.joined r.session.id).answerOf? slot = _ from consistent.find?_answersOf listed]
      rfl
    · intro slot item made
      rw [Exam.ReviewItem.isCorrect, (Exam.Joined.eq_of_reviewItem made).2]
  have counted := w.tables.count_answersOf r.session.id
  rw [← marks, List.count_eq_countP, List.count_eq_countP, List.countP_map, List.countP_map] at counted
  simpa [Function.comp_def] using counted.symm

/-- The count of a completed session is that of the right items. -/
theorem correctCount_eq (shows : w.Shows r) (valid : w.tables.Valid) (completed : r.session.status = .completed) :
    r.session.correctCount = some (r.items.countP (·.isCorrect) : Int) := by
  rw [valid.correctCount_eq shows.stored completed, shows.countP_isCorrect valid.consistent]

/-- A session that has ended is completed or timed out. -/
theorem status (shows : w.Shows r) (valid : w.tables.Valid) : r.session.status = .completed ∨ r.session.status = .timeout := by
  have cancelled := (valid.lawful shows.stored).not_cancelled
  have finished := shows.finished
  cases status : r.session.status <;> simp_all

/-- The review is what `detail` gives if nothing comes in between. -/
theorem perform_detail (shows : w.Shows r) (valid : w.tables.Valid) (clock : Nat → Instant) :
    (w.perform (.detail r.session.token) clock).1 = .ok r := by
  have found := valid.consistent.findByToken?_iff.2 ⟨shows.stored, rfl⟩
  have looked := Ticking.run_look (w := ⟨w, clock⟩) found shows.finished
  have joined : (Exam.join r.session.id).run Ticking.handle (Ticking.tick ⟨w, clock⟩) =
      (.ok (w.joined r.session.id), Ticking.tick ⟨w, clock⟩) := rfl
  simp only [perform, Exam.Operation.call, Exam.detail, Call.run_bind, looked, shows.status valid, if_true, joined, shows.items]
  rfl

end Shows

end World

/-- What is read of a session that has ended, at several times, is what a later world tells of it. -/
theorem World.joined_eq {w x y z : World} {s : Session} (stored : x.tables.find? s.id = some s) (finished : s.status ≠ .ongoing)
    (valid : x.tables.Valid) (xy : x.Follows y) (yz : y.Follows z) (zw : z.Follows w) :
    ⟨x.tables.sheet s.id, y.catalog.getAll ((x.tables.sheet s.id).map (·.question)), z.tables.answersOf s.id⟩ = w.joined s.id := by
  have xz := xy.trans valid yz
  rw [joined_of_follows (xz.trans valid zw) stored finished, joined, xy.catalog,
    xz.follows.evolves.answersOf_eq stored finished]

namespace Exam

open Call

variable {i : Nat} {v : View}

/-- The caller has not read the slots of any session. -/
def Unread (v : View) : Prop := ∀ d ∈ v.deeds, ∀ id, d.access ≠ .sheet id

/-- There is a session that has ended of which there is no review. -/
def Faulty (w : World) : Prop := ∃ s : Session, w.tables.find? s.id = some s ∧ s.status ≠ .ongoing ∧ ∀ items, ¬w.Shows ⟨s, items⟩

/-- A review is that of the session of the token, as the world has told it ever since its slots were read. Who
fails has read no slots, unless a slot is without its question. -/
def Reviews (token : String) : Except Error Review → View → Prop
  | .ok r, v => r.session.token = token ∧ v.world.Shows r ∧ ¬Unread v ∧
      ∀ d ∈ v.deeds, ∀ id, d.access = .sheet id → d.before.Shows r
  | .error _, v => Unread v ∨ Faulty v.world

theorem Faulty.later {w u : World} (faulty : Faulty w) (follows : w.Follows u) : Faulty u := by
  obtain ⟨s, stored, finished, none⟩ := faulty
  refine ⟨s, follows.follows.evolves.ended stored finished, finished, fun items shows => none items ⟨stored, finished, ?_⟩⟩
  rw [← World.joined_of_follows follows stored finished]
  exact shows.items

theorem not_faulty {w : World} (stocked : w.Stocked) : ¬Faulty w := by
  rintro ⟨s, stored, finished, none⟩
  obtain ⟨items, shows⟩ := World.exists_shows stocked stored finished
  exact none items shows

theorem unread_look (token : String) (new : v.deeds = []) :
    (look token).Meets (View.handle i) View.Rests (fun _ _ => True) (fun _ u => Unread u) v := by
  have only : (look token).Only fun q => ∀ id, q ≠ .sheet id := by
    refine only_bind (only_bind (only_ask.2 (by simp)) fun _ => only_orFail) fun s => ?_
    refine only_bind (only_now.2 (by simp)) fun now => ?_
    split
    · exact only_ask.2 (by simp)
    · exact only_pure
  refine only.meets ?_ ?_ (by simp [Unread, new])
  · intro u w unread rests
    rwa [Unread, rests.deeds]
  · intro q u other unread
    exact ⟨trivial, List.forall_mem_cons.2 ⟨other, unread⟩⟩

theorem traces_detail (token : String) (new : v.deeds = []) : Traces i (Reviews token) (detail token) v := by
  have looked := (accounts_look (i := i) token (congrArg subject? new)).and (unread_look token new)
  refine meets_bind looked ?_ fun e w told => .inl told.2
  rintro s u ⟨⟨known, named⟩, unread⟩
  split
  · rename_i ended
    have finished : s.status ≠ .ongoing := by rcases ended with ended | ended <;> simp [ended]
    refine meets_bind (traces_join s.id) ?_ (by rintro e w ⟨x, y, z, -, -, -, -, -, ⟨⟩⟩)
    rintro j w ⟨x, y, z, deeds, ux, xy, yz, zw, eq⟩
    have stored : x.tables.find? s.id = some s := (known.recalls.later ux.follows.evolves).stored finished
    have valid := ux.follows.valid
    have xw := (xy.trans valid yz).trans valid zw
    obtain rfl : j = w.world.joined s.id := by
      rw [Except.ok.inj eq]
      exact World.joined_eq stored finished valid xy yz zw
    have stored' := xw.follows.evolves.ended stored finished
    cases shown : (w.world.joined s.id).slots.mapM (w.world.joined s.id).reviewItem with
    | error e =>
      refine .inr ⟨s, stored', finished, fun items shows => ?_⟩
      cases shown.symm.trans shows.items
    | ok items =>
      have shows : w.world.Shows ⟨s, items⟩ := ⟨stored', finished, shown⟩
      have read : ¬Unread w := fun unread => unread ⟨i, x, .sheet s.id⟩ (by simp [deeds]) s.id rfl
      refine ⟨named, shows, read, ?_⟩
      rw [deeds]
      intro d listed id access
      simp only [List.mem_cons] at listed
      obtain rfl | rfl | rfl | before := listed
      · cases access
      · cases access
      · refine ⟨stored, finished, ?_⟩
        rw [← World.joined_of_follows xw stored finished]
        exact shown
      · exact absurd access (unread d before id)
  · exact .inl unread

theorem ends_look (token : String) : (look token).EndsWithin 3 :=
  ends_bind (n := 1) (m := 2) (ends_bind (n := 1) (m := 0) ends_ask fun _ => ends_orFail) ends_observe

theorem ends_join (id : Int) : (join id).EndsWithin 3 :=
  ends_bind (n := 1) (m := 2) ends_ask fun _ => ends_bind (n := 1) (m := 1) ends_ask fun _ =>
    ends_bind (n := 1) (m := 0) ends_ask fun _ => trivial

theorem ends_detail (token : String) : (detail token).EndsWithin 6 := by
  refine ends_bind (n := 3) (m := 3) (ends_look token) fun s => ?_
  split
  · refine ends_bind (n := 3) (m := 0) (ends_join s.id) fun j => ?_
    cases j.slots.mapM j.reviewItem <;> trivial
  · trivial

namespace Operation

/-- What the deeds of a sheet or a review tell of its making. -/
def Presents : (o : Operation) → Except Error o.Result → View → Prop
  | .questions token, r, v => Sheets token r v
  | .detail token, r, v => Reviews token r v
  | _, _, _ => True

/-- What was read does not change when others act. -/
theorem presents_of_rests {o : Operation} {r : Except Error o.Result} {u : View} (h : o.Presents r v) (rests : v.Rests u) :
    o.Presents r u := by
  cases o with
  | questions token =>
    cases r with
    | ok sheet =>
      obtain ⟨s, d, opened, shown⟩ := h
      exact ⟨s, d, lasting_opened token s d v u rests.grows opened, shown⟩
    | error e => trivial
  | detail token =>
    cases r with
    | ok r =>
      obtain ⟨named, shows, read⟩ := h
      refine ⟨named, shows.later rests.toFollows, ?_⟩
      rwa [Unread, rests.deeds]
    | error e => exact h.imp (fun unread => by rwa [Unread, rests.deeds]) fun faulty => faulty.later rests.toFollows
  | _ => trivial

/-- **Sheets and reviews are made of what was read**, whatever others do. -/
theorem traces_presents {o : Operation} (fits : o.fits) (new : v.deeds = []) : Traces i o.Presents o.call v := by
  cases o with
  | questions token => exact traces_questions token new
  | detail token => exact traces_detail token new
  | _ => exact (accounts_call fits (congrArg subject? new)).imp fun _ _ _ => trivial

end Operation

end Exam

end Proctor
