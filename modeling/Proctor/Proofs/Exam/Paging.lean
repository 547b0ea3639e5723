import Proctor.Proofs.Exam.Listing

/-!
# Walking through a listing

A listing of the ongoing sessions drops those that are past their deadline as it shows them. Then the sessions after them
move up by as many places, and as many are passed over by the next page. `skim` is what is read of a list in this
way, and `walk_shows` says when it is all of it.
-/

set_option autoImplicit false

namespace Proctor

section Skim

variable {α β : Type} {drops : α → Bool} {n : Nat}

/-- What is read of a list in pages of `n`, if entries that drop out when they are read let those after them move up. -/
def skim (drops : α → Bool) (n : Nat) : Nat → List α → List α
  | 0, _ => []
  | count + 1, l => l.take n ++ skim drops n count (l.drop (n + (l.take n).countP drops))

theorem skim_sublist (count : Nat) (l : List α) : (skim drops n count l).Sublist l := by
  induction count generalizing l with
  | zero => exact List.nil_sublist l
  | succ count ih =>
    have later : (l.drop (n + (l.take n).countP drops)).Sublist (l.drop n) := by
      rw [← List.drop_drop]
      exact List.drop_sublist _ _
    have both := (List.Sublist.refl (l.take n)).append ((ih _).trans later)
    rwa [List.take_append_drop] at both

theorem map_skim (f : α → β) {drops' : β → Bool} (same : ∀ a, drops' (f a) = drops a) (count : Nat) (l : List α) :
    (skim drops n count l).map f = skim drops' n count (l.map f) := by
  induction count generalizing l with
  | zero => rfl
  | succ count ih =>
    have counted : ((l.map f).take n).countP drops' = (l.take n).countP drops := by
      rw [← List.map_take, List.countP_map]
      exact congrArg (fun p => (l.take n).countP p) (funext same)
    rw [skim, skim, List.map_append, ih, counted, List.map_drop, List.map_take]

/-- If nothing drops out before the last page, all of the list is read. -/
theorem skim_eq_self {count : Nat} {l : List α} (fits : l.length ≤ count * n)
    (stays : ∀ a ∈ l.take ((count - 1) * n), drops a = false) : skim drops n count l = l := by
  induction count generalizing l with
  | zero =>
    rw [Nat.zero_mul] at fits
    rw [List.eq_nil_of_length_eq_zero (Nat.le_zero.1 fits)]
    rfl
  | succ count ih =>
    rw [Nat.succ_mul] at fits
    cases count with
    | zero => rw [skim, skim, List.append_nil, List.take_of_length_le (by omega)]
    | succ count =>
      rw [Nat.add_sub_cancel, Nat.succ_mul, Nat.add_comm, List.take_add, List.forall_mem_append] at stays
      have none : (l.take n).countP drops = 0 := List.countP_eq_zero.2 fun a listed => by simp [stays.1 a listed]
      have rest : (l.drop n).length ≤ (count + 1) * n := by
        rw [List.length_drop]
        omega
      rw [skim, none, Nat.add_zero n, ih rest stays.2, List.take_append_drop]

/-- If something drops out before the last page, and something is left for the last page, something is passed over. -/
theorem length_skim_lt {count : Nat} {l : List α} (needed : (count - 1) * n < l.length) {a : α}
    (listed : a ∈ l.take ((count - 1) * n)) (dropped : drops a = true) : (skim drops n count l).length < l.length := by
  induction count generalizing l with
  | zero => simp at listed
  | succ count ih =>
    cases count with
    | zero => simp at listed
    | succ count =>
      rw [Nat.add_sub_cancel, Nat.succ_mul] at needed
      rw [Nat.add_sub_cancel, Nat.succ_mul, Nat.add_comm, List.take_add, List.mem_append] at listed
      rw [skim, List.length_append, List.length_take]
      rcases Nat.eq_zero_or_pos ((l.take n).countP drops) with none | some
      · have later := listed.resolve_left fun first => List.countP_eq_zero.1 none a first dropped
        have shorter := ih (l := l.drop n) (by rw [List.length_drop, Nat.add_sub_cancel]; omega) later
        rw [List.length_drop] at shorter
        rw [none, Nat.add_zero n]
        omega
      · have rest : (skim drops n (count + 1) _).length ≤ _ :=
          (skim_sublist (count + 1) (l.drop (n + (l.take n).countP drops))).length_le
        rw [List.length_drop] at rest
        omega

/-- What comes after a page, when those that dropped out of the page are gone. -/
theorem drop_filter_of_read {κ : Type} [DecidableEq κ] {key : α → κ} {l : List α} (distinct : (l.map key).Nodup) (o n : Nat) :
    (l.filter fun a => !(((l.drop o).take n).any (key · == key a) && drops a)).drop (o + n) =
      (l.drop o).drop (n + ((l.drop o).take n).countP drops) := by
  rcases Nat.lt_or_ge l.length (o + n) with short | long
  · rw [List.drop_eq_nil_of_le (Nat.le_trans (List.length_filter_le _ _) (Nat.le_of_lt short)), List.drop_eq_nil_of_le]
    rw [List.length_drop]
    omega
  generalize page_eq : (l.drop o).take n = page
  have size : page.length = n := by
    rw [← page_eq, List.length_take, List.length_drop]
    omega
  have parts : l = l.take o ++ (page ++ (l.drop o).drop n) := by
    rw [← page_eq, List.take_append_drop, List.take_append_drop]
  rw [parts, List.map_append, List.map_append] at distinct
  obtain ⟨-, later, before⟩ := List.nodup_append.1 distinct
  have after := (List.nodup_append.1 later).2.2
  -- just the entries of the page are read
  have read : ∀ a ∈ page, page.any (key · == key a) = true := fun a listed =>
    List.any_eq_true.2 ⟨a, listed, beq_self_eq_true _⟩
  have unread : ∀ a, (∀ b ∈ page, key b ≠ key a) → page.any (key · == key a) = false := by simp
  have kept : l.filter (fun a => !(page.any (key · == key a) && drops a)) =
      l.take o ++ (page.filter (fun a => !drops a) ++ (l.drop o).drop n) := by
    conv_lhs => rw [parts]
    rw [List.filter_append, List.filter_append]
    congr 1
    · refine List.filter_eq_self.2 fun a first => ?_
      rw [unread a fun b listed same => before _ (List.mem_map_of_mem first) _
        (List.mem_append_left _ (List.mem_map_of_mem listed)) same.symm]
      rfl
    congr 1
    · exact List.filter_congr fun a listed => by rw [read a listed, Bool.true_and]
    · refine List.filter_eq_self.2 fun a rest => ?_
      rw [unread a fun b listed same => after _ (List.mem_map_of_mem listed) _ (List.mem_map_of_mem rest) same]
      rfl
  have counted : (page.filter fun a => !drops a).length + page.countP drops = n := by
    have both := List.length_eq_countP_add_countP drops (l := page)
    simp only [decide_not, Bool.decide_eq_true] at both
    rw [← List.countP_eq_length_filter]
    omega
  rw [kept, List.drop_append, List.drop_append, List.drop_eq_nil_of_le (by rw [List.length_take]; omega), List.nil_append,
    List.length_take, Nat.min_eq_left (by omega), Nat.add_sub_cancel_left, List.drop_eq_nil_of_le (by omega), List.nil_append,
    List.drop_drop]
  congr 1
  omega

end Skim

namespace Filter

/-- What a page shows of a session, and whether the session drops out of the listing by that. -/
def reading (f : Filter) (now : Instant) (s : Session) : Session × Bool := (s.asOf now, f.drops now s)

variable {f : Filter} {now : Instant} {seen : Int → Bool} {s : Session}

/-- A session that does not drop out is read alike afterwards. -/
theorem reading_asSeen (kept : (seen s.id && f.drops now s) = false) : f.reading now (s.asSeen seen now) = f.reading now s := by
  unfold reading
  rw [Session.asOf_asSeen]
  unfold Session.asSeen
  split
  · rename_i here
    rw [here, Bool.true_and] at kept
    rw [kept, drops, s.isExpired_asOf now, Bool.and_false]
  · rfl

/-- What is read of a listing depends on the readings only. -/
theorem map_skim_of_reading {l l' : List Session} (alike : l.map (f.reading now) = l'.map (f.reading now)) (n count : Nat) :
    (skim (f.drops now) n count l).map (·.asOf now) = (skim (f.drops now) n count l').map (·.asOf now) := by
  have read : ∀ l : List Session, (skim (f.drops now) n count l).map (·.asOf now) =
      (skim (·.2) n count (l.map (f.reading now))).map (·.1) := fun l => by
    rw [← map_skim (f.reading now) (fun _ => rfl), List.map_map]
    rfl
  rw [read, read, alike]

/-- The place at which a page begins, as long as it has a signed 64-bit number. -/
theorem offset_eq {k : Nat} (near : k * f.perPage ≤ Text.Width.signed64.greatest) (positive : 1 ≤ f.perPage) :
    ({ f with page := k + 1 } : Filter).offset.toNat = k * f.perPage.toNat := by
  have place : ({ f with page := k + 1 } : Filter).offset = k * f.perPage := by
    simp only [offset, Int.add_sub_cancel]
    rw [Int.max_eq_left (Int.natCast_nonneg k), Int.max_eq_left (by omega), Int.min_eq_left near]
  rw [place, Int.toNat_mul (Int.natCast_nonneg k) (by omega), Int.toNat_natCast]

end Filter

namespace Exam

open Call

/-- The pages from this one on, one after the other. -/
def pages (f : Filter) : Nat → Int → Call (List Session)
  | 0, _ => pure []
  | count + 1, page => do
    let shown ← list { f with page := page }
    let rest ← pages f count (page + 1)
    pure (shown.1 ++ rest)

/-- A walk through a listing: the first page, and as many more as it says that there are. -/
def walk (f : Filter) : Call (List Session) := do
  let first ← list { f with page := 1 }
  let rest ← pages f ((pageCount first.2 f.perPage).toNat - 1) 2
  pure (first.1 ++ rest)

variable {w : World} {f : Filter} {k : Nat}

/-- **One page of a walk** shows what is there, and those after it move up by as many places as sessions drop out. -/
theorem run_page (filed : w.tables.Filed) (near : k * f.perPage ≤ Text.Width.signed64.greatest) (positive : 1 ≤ f.perPage) :
    let n := f.perPage.toNat
    let left := (w.tables.selection f).drop (k * n)
    ∃ u, (list { f with page := k + 1 }).run World.handle w =
        (.ok ((left.take n).map (·.asOf w.now), (w.tables.selection f).length), u) ∧
      u.tables.Filed ∧ u.now = w.now ∧
      ((u.tables.selection f).drop ((k + 1) * n)).map (f.reading w.now) =
        (left.drop (n + (left.take n).countP (f.drops w.now))).map (f.reading w.now) := by
  intro n left
  have page : (w.tables.list { f with page := k + 1 }).1 = left.take n := by
    show ((w.tables.selection f).drop _).take n = _
    rw [Filter.offset_eq near positive]
  have filed' := filed.run (list { f with page := k + 1 })
  have ran := run_list filed { f with page := k + 1 }
  rw [page] at ran
  rw [ran] at filed'
  refine ⟨_, ran, filed', rfl, ?_⟩
  have listed : ∀ s ∈ left.take n, s ∈ w.tables.selection f := fun s here =>
    List.mem_of_mem_drop (List.mem_of_mem_take here)
  have wanted : ∀ s ∈ w.tables.sessions.values, (left.take n).any (·.id == s.id) = true → Tables.wants f s = true := by
    intro s held seen
    obtain ⟨r, here, same⟩ := List.any_eq_true.1 seen
    obtain ⟨held', wanted⟩ := Tables.mem_selection_iff.1 (listed r here)
    have stored := filed.find?_of_mem_values held'
    rw [beq_iff_eq.1 same, filed.find?_of_mem_values held] at stored
    rwa [Option.some.inj stored]
  have moved : ((w.tables.selection f).filter fun s => !((left.take n).any (·.id == s.id) && f.drops w.now s)).drop (k * n + n) =
      left.drop (n + (left.take n).countP (f.drops w.now)) := drop_filter_of_read (filed.nodup_selection f) (k * n) n
  show ((Tables.selection (w.tables.noticed _ w.now) f).drop _).map _ = _
  rw [Tables.selection_noticed_of_wanted wanted, ← List.map_drop, List.map_map, Nat.succ_mul, ← moved]
  refine List.map_congr_left fun s later => Filter.reading_asSeen ?_
  have stays := (List.mem_filter.1 (List.mem_of_mem_drop later)).2
  rwa [Bool.not_eq_true'] at stays

/-- **A walk from one page on** shows what `skim` reads. -/
theorem run_pages (filed : w.tables.Filed) (positive : 1 ≤ f.perPage) (count : Nat)
    (near : ∀ i < count, ((k + i : Nat) : Int) * f.perPage ≤ Text.Width.signed64.greatest) :
    ∃ u, (pages f count (k + 1)).run World.handle w =
      (.ok ((skim (f.drops w.now) f.perPage.toNat count ((w.tables.selection f).drop (k * f.perPage.toNat))).map (·.asOf w.now)),
        u) := by
  induction count generalizing k w with
  | zero => exact ⟨w, rfl⟩
  | succ count ih =>
    obtain ⟨u, ran, filed', now, rest⟩ := run_page (k := k) filed (near 0 (Nat.succ_pos count)) positive
    obtain ⟨v, later⟩ := ih (k := k + 1) filed' fun i below => by
      have := near (i + 1) (Nat.succ_lt_succ below)
      rwa [Nat.add_assoc, Nat.add_comm 1 i]
    refine ⟨v, ?_⟩
    rw [now, Filter.map_skim_of_reading rest] at later
    push_cast at later
    simp only [pages, run_bind, ran, later, skim, List.map_append]
    rfl

/-- The number of pages of a walk; the first one is asked for in any case. -/
def walkLength (total : Nat) (f : Filter) : Nat := (pageCount total f.perPage).toNat - 1 + 1

/-- All of the listing fits on the pages of a walk. -/
theorem le_walkLength_mul (positive : 1 ≤ f.perPage) (total : Nat) : total ≤ walkLength total f * f.perPage.toNat := by
  have fits : (total : Int) + f.perPage - 1 < (pageCount total f.perPage + 1) * f.perPage :=
    Int.lt_ediv_add_one_mul_self _ (by omega)
  have length : pageCount total f.perPage ≤ walkLength total f := by
    unfold walkLength
    omega
  have enough := Int.mul_le_mul_of_nonneg_right length (by omega : 0 ≤ f.perPage)
  have size : ((walkLength total f * f.perPage.toNat : Nat) : Int) = walkLength total f * f.perPage := by
    rw [Int.natCast_mul, Int.toNat_of_nonneg (by omega)]
  rw [Int.add_mul, Int.one_mul] at fits
  omega

/-- Something is left for the last page of a walk, unless there is nothing at all. -/
theorem walkLength_pred_mul_le (positive : 1 ≤ f.perPage) (total : Nat) :
    ((walkLength total f - 1 : Nat) : Int) * f.perPage ≤ (total - 1 : Nat) := by
  have needed : pageCount total f.perPage * f.perPage ≤ (total : Int) + f.perPage - 1 := Int.ediv_mul_le _ (by omega)
  have length : ((walkLength total f - 1 : Nat) : Int) = max (pageCount total f.perPage - 1) 0 := by
    unfold walkLength
    omega
  rcases Int.le_total (pageCount total f.perPage - 1) 0 with none | some_
  · rw [length, Int.max_eq_right none, Int.zero_mul]
    omega
  · rw [length, Int.max_eq_left some_, Int.sub_mul, Int.one_mul]
    omega

/-- **A walk** shows what `skim` reads. -/
theorem run_walk (filed : w.tables.Filed) (positive : 1 ≤ f.perPage)
    (few : ((w.tables.selection f).length : Int) ≤ Text.Width.signed64.greatest) :
    ∃ u, (walk f).run World.handle w =
      (.ok ((skim (f.drops w.now) f.perPage.toNat (walkLength (w.tables.selection f).length f) (w.tables.selection f)).map
        (·.asOf w.now)), u) := by
  obtain ⟨u, ran⟩ := run_pages (k := 0) filed positive (walkLength (w.tables.selection f).length f) fun i below => by
    have last := walkLength_pred_mul_le positive (w.tables.selection f).length
    have before : ((0 + i : Nat) : Int) ≤ (walkLength (w.tables.selection f).length f - 1 : Nat) := by omega
    have := Int.mul_le_mul_of_nonneg_right before (by omega : 0 ≤ f.perPage)
    omega
  have first := run_list filed { f with page := 1 }
  rw [Nat.zero_mul, List.drop_zero] at ran
  have ran : (pages f ((pageCount (w.tables.selection f).length f.perPage).toNat - 1 + 1) 1).run World.handle w = _ := ran
  rw [pages, run_bind, first] at ran
  refine ⟨u, ?_⟩
  rw [walk, run_bind, first]
  exact ran

/-- The sessions of a listing that come before the last page of a walk. -/
def beforeLast (t : Tables) (f : Filter) : List Session :=
  (t.selection f).take ((walkLength (t.selection f).length f - 1) * f.perPage.toNat)

/-- **What a walk shows.** Nothing is shown that is not wanted, and nothing is shown twice. But all that is wanted is shown
just if the listing is not one of the ongoing sessions, or if none that comes before the last page is past its deadline:
what a page times out leaves the listing, and as many sessions behind it are passed over. -/
theorem walk_shows (reached : w.tables.Reached) (f : Filter) (positive : 1 ≤ f.perPage)
    (few : ((w.tables.selection f).length : Int) ≤ Text.Width.signed64.greatest) :
    ∃ part shown : List Session, ((walk f).run World.handle w).1 = .ok shown ∧ shown = part.map (·.asOf w.now) ∧
      part.Sublist (w.tables.selection f) ∧ (shown.map (·.id)).Nodup ∧
      ((∀ s ∈ w.tables.selection f, s.id ∈ shown.map (·.id)) ↔
        (f.status = some .ongoing → ∀ s ∈ beforeLast w.tables f, s.isExpired w.now = false)) := by
  have filed := reached.filed
  obtain ⟨u, ran⟩ := run_walk filed positive few
  have once := filed.nodup_selection f
  have wanted : (skim (f.drops w.now) f.perPage.toNat (walkLength (w.tables.selection f).length f)
    (w.tables.selection f)).Sublist _ := skim_sublist _ _
  have ids : ∀ l : List Session, (l.map (·.asOf w.now)).map (·.id) = l.map (·.id) := fun l => by
    rw [List.map_map]
    exact List.map_congr_left fun s _ => s.id_asOf w.now
  refine ⟨_, _, by rw [ran], rfl, wanted, ?_, ?_⟩
  · rw [ids]
    exact once.sublist (wanted.map _)
  rw [ids]
  constructor
  · intro all ongoing s listed
    by_contra expired
    have dropped : f.drops w.now s = true := by simpa [Filter.drops, ongoing] using expired
    have needed : (walkLength (w.tables.selection f).length f - 1) * f.perPage.toNat < (w.tables.selection f).length := by
      have some_ := List.length_pos_of_mem (List.mem_of_mem_take listed)
      have last := walkLength_pred_mul_le positive (w.tables.selection f).length
      have size : (f.perPage.toNat : Int) = f.perPage := Int.toNat_of_nonneg (by omega)
      rw [← size, ← Int.natCast_mul] at last
      omega
    have shorter := length_skim_lt needed listed dropped
    -- but all sessions have an id of their own, and all ids are shown
    have covered := (List.subperm_of_subset once fun id listed => by
      obtain ⟨r, held, rfl⟩ := List.mem_map.1 listed
      exact all r held).length_le
    rw [List.length_map, List.length_map] at covered
    omega
  · intro none s listed
    rw [skim_eq_self (le_walkLength_mul positive _)]
    · exact List.mem_map_of_mem listed
    intro s early
    cases status : f.status == some .ongoing with
    | false => rw [Filter.drops, status, Bool.false_and]
    | true => rw [Filter.drops, none (beq_iff_eq.1 status) s early, Bool.and_false]

/-- Of two sessions that are stored as ongoing, the first one is late. A walk through the ongoing sessions in pages of one
shows it as timed out and passes over the other one; a walk through all sessions shows both. -/
theorem walk_shows_of_late :
    let w := Sample.late
    let ongoing : Filter := ⟨none, some .ongoing, 1, 1⟩
    let all : Filter := ⟨none, none, 1, 1⟩
    (∃ shown, ((walk ongoing).run World.handle w).1 = .ok shown ∧ shown.length = 1 ∧
      ¬∀ s ∈ w.tables.selection ongoing, s.id ∈ shown.map (·.id)) ∧
      ∃ shown, ((walk all).run World.handle w).1 = .ok shown ∧ shown.length = 2 ∧
        ∀ s ∈ w.tables.selection all, s.id ∈ shown.map (·.id) := by
  intro w ongoing all
  obtain ⟨_, some_, ran, _, _, _, complete⟩ := walk_shows Sample.reached_late ongoing (by decide) (by decide +kernel)
  obtain ⟨_, both, ran', _, _, _, complete'⟩ := walk_shows Sample.reached_late all (by decide) (by decide +kernel)
  have one : ((walk ongoing).run World.handle w).1.map (·.length) = .ok 1 := by decide +kernel
  have two : ((walk all).run World.handle w).1.map (·.length) = .ok 2 := by decide +kernel
  have expired : ¬∀ s ∈ beforeLast w.tables ongoing, s.isExpired w.now = false := by decide +kernel
  rw [ran] at one
  rw [ran'] at two
  refine ⟨⟨some_, ran, Except.ok.inj one, fun shown => expired (complete.1 shown rfl)⟩,
    both, ran', Except.ok.inj two, complete'.2 ?_⟩
  rintro ⟨⟩

/-- A walk through the ongoing sessions can pass over one. -/
theorem not_walk_shows_all :
    ¬∀ (w : World) (f : Filter), w.tables.Reached → 1 ≤ f.perPage →
      ∃ shown, ((walk f).run World.handle w).1 = .ok shown ∧ (shown.map (·.id)).Nodup ∧
        ∀ s ∈ w.tables.selection f, s.id ∈ shown.map (·.id) := by
  intro all
  obtain ⟨shown, ran, -, complete⟩ := all Sample.late ⟨none, some .ongoing, 1, 1⟩ Sample.reached_late (by decide)
  have ids : ((walk ⟨none, some .ongoing, 1, 1⟩).run World.handle Sample.late).1.map (·.map (·.id)) = .ok [2] := by
    decide +kernel
  have first : ∃ s ∈ Sample.late.tables.selection ⟨none, some .ongoing, 1, 1⟩, s.id = 1 := by decide +kernel
  rw [ran] at ids
  have shown_ids : shown.map (·.id) = [2] := Except.ok.inj ids
  obtain ⟨s, wanted, id⟩ := first
  have listed := complete s wanted
  rw [shown_ids, id] at listed
  exact absurd listed (by decide)

end Exam

end Proctor
