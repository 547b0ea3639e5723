import Proctor.Proofs.Exam.Review
import Proctor.Proofs.Hall.Deadlines

/-!
# Sheets that are read while others act

A sheet is read from the tables in several accesses, and anything may happen to its session in between. The
slots of a session do not change, so a sheet has all of them or none (`sheets_play`): it has none if the
session was removed after it had been found and before its slots were read, which no access looks for
(`not_whole_always`).
-/

set_option autoImplicit false

namespace Proctor.Hall

variable {h : Hall} {newer between older oldest : List Deed} {d f : Deed} {i : Nat} {s : Session} {token : String}

/-- What a caller did first, in the log of all deeds. -/
theorem exists_of_suffix {rest : List Deed} (first : d :: rest <:+ (h.view i).deeds) :
    ∃ newer older, h.log = newer ++ d :: older ∧ d.caller = i ∧ rest = older.filter (·.caller == i) := by
  obtain ⟨last, deeds⟩ := first
  obtain ⟨newest, others, log, -, mine⟩ := List.filter_eq_append_iff.1 deeds.symm
  obtain ⟨between, older, rfl, -, own, same⟩ := List.filter_eq_cons_iff.1 mine
  exact ⟨newest ++ between, older, by rw [log, List.append_assoc], by simpa using own, same.symm⟩

/-- The session that a caller has found, with the deeds `f` that found it and `d` that read its slots. -/
theorem exists_of_opened (sound : h.Sound) (opened : Exam.Opened token s d (h.view i)) :
    ∃ newer between f oldest, h.log = newer ++ d :: (between ++ f :: oldest) ∧ d.caller = i ∧ f.caller = i ∧
      f.access = .findByToken token ∧ f.before.tables.findByToken? token = some s := by
  obtain ⟨n, f, first, found, stored⟩ := opened.deeds
  obtain ⟨newer, older, log, own, rest⟩ := exists_of_suffix first
  obtain ⟨listed, mine⟩ := List.mem_filter.1 (show f ∈ older.filter (·.caller == i) by simp [← rest])
  obtain ⟨between, oldest, rfl⟩ := List.append_of_mem listed
  refine ⟨newer, between, f, oldest, log, own, by simpa using mine, ?_⟩
  have recorded := sound.recorded
  rw [log] at recorded
  have consistent := recorded.upTo.step.2.upTo.step.2.valid.consistent
  obtain ⟨token', access⟩ := Deed.access_of_found? found
  -- the token that was looked for is that of the session that was found
  have found' : (f.before.tables.findByToken? token').map (·.id) = some s.id := by
    simpa only [Deed.found?, access] using found
  obtain ⟨r, found', same⟩ := Option.map_eq_some_iff.1 found'
  obtain ⟨stored', rfl⟩ := consistent.findByToken?_iff.1 found'
  rw [same] at stored'
  obtain rfl := Option.some.inj (stored.symm.trans stored')
  rw [opened.token_eq] at found' access
  exact ⟨access, found'⟩

/-- Slots that were read are all those of the session, or the session was removed before and there are none. -/
theorem sheet_of_found (recorded : Recorded (newer ++ d :: (between ++ f :: oldest)) h.tables) (access : f.access = .findByToken token)
    (found : f.before.tables.findByToken? token = some s) :
    ((∀ c ∈ between, ¬c.Removes s.id) →
      (d.before.tables.sheet s.id).map (·.sequence) = (List.range s.total.toNat).map fun k : Nat => (k : Int) + 1) ∧
    ((∃ c ∈ between, c.Removes s.id) → d.before.tables.sheet s.id = []) := by
  have before := recorded.upTo.step.2
  have consistent := before.valid.consistent
  have stored : f.after.tables.find? s.id = some s := by
    have same : f.after.tables = f.before.tables := World.tables_handle_of_reads (access ▸ trivial) f.before
    rw [same]
    exact (before.upTo.step.2.valid.consistent.findByToken?_iff.1 found).1
  constructor
  · intro spared
    cases stored' : d.before.tables.find? s.id with
    | none =>
      obtain ⟨c, listed, removes⟩ := before.exists_removes stored stored'
      exact absurd removes (spared c listed)
    | some r =>
      rw [consistent.sheet_eq stored', consistent.sequences stored', (before.follows.evolves.terms stored stored').2]
  · rintro ⟨c, listed, removes⟩
    obtain ⟨later, earlier, rfl⟩ := List.append_of_mem listed
    rw [List.append_assoc, List.cons_append] at before
    rw [Tables.sheet, consistent.slotsOf_eq_nil (before.find?_of_removes removes)]
    rfl

/-- Sheets and reviews are made of what their callers have read. -/
theorem presents_play (catalog : Catalog) (now : Instant) (quota : Option Quota) (events : List Event) :
    ((start catalog now quota).play events).ComesTo fun o => o.Presents :=
  (sound_start catalog now quota).comesTo_play (fun o => o.Presents) Exam.Operation.presents_of_rests
    (fun fits first => Exam.Operation.traces_presents fits first) (fun here => by cases here) events

/-- **A sheet has all slots of its session or none**, in whatever order the callers act and whatever the clock shows.
Its caller found a session in the deed `f`, whose token and deadline the sheet tells, and read the slots
in the deed `d`. The items have the sequences from 1 up to the total of this session, unless it was
removed in between; then there are no items. -/
theorem sheets_play (catalog : Catalog) (now : Instant) (quota : Option Quota) (events : List Event) :
    let h := (start catalog now quota).play events
    ∀ {i : Nat} {token : String} {sheet : Exam.Sheet}, h.callers[i]? = some ⟨.questions token, .done sheet⟩ →
      ∃ s newer d between f oldest, h.log = newer ++ d :: (between ++ f :: oldest) ∧ d.caller = i ∧ f.caller = i ∧
        f.access = .findByToken token ∧ f.before.tables.findByToken? token = some s ∧ d.access = .sheet s.id ∧
        sheet.token = s.token ∧ sheet.deadline = s.deadline ∧
        ((∀ c ∈ between, ¬c.Removes s.id) →
          sheet.items.map (·.sequence) = (List.range s.total.toNat).map fun k : Nat => (k : Int) + 1) ∧
        ((∃ c ∈ between, c.Removes s.id) → sheet.items = []) := by
  intro h i token sheet told
  have sound : h.Sound := sound_play catalog now quota events
  have comes : Exam.Sheets token (.ok sheet) (h.view i) := presents_play catalog now quota events told
  obtain ⟨s, d, opened, tokens, deadlines, items⟩ := comes
  obtain ⟨newer, between, f, oldest, log, own, mine, access, found⟩ := exists_of_opened sound opened
  obtain ⟨whole, empty⟩ := sheet_of_found (h := h) (log ▸ sound.recorded) access found
  refine ⟨s, newer, d, between, f, oldest, log, own, mine, access, found, opened.access, tokens, deadlines, ?_, ?_⟩
  · intro spared
    rw [items, whole spared]
  · intro removed
    rw [empty removed] at items
    exact List.map_eq_nil_iff.1 items

namespace Sample

/-- A session is removed after somebody has found it who wants to see its questions. -/
def torn : List Event :=
  opens ++ [.enters (.questions "T") rfl, comes Course.Sample.cancels] ++ turns [1, 1, 2, 2, 2, 1, 1, 1, 1]

/-- The sheet without any items that this caller gets. -/
def blank : Exam.Sheet := ⟨"T", ⟨1800000000000, false⟩, 1799, []⟩

theorem torn_found : ∀ f ∈ (starts.play torn).log, ∀ s, f.before.tables.findByToken? "T" = some s → s = Course.Sample.session 1 := by
  have found : ∀ f ∈ (starts.play torn).log, f.before.tables.findByToken? "T" = none ∨
      f.before.tables.findByToken? "T" = some (Course.Sample.session 1) := by decide +kernel
  intro f logged s given
  rcases found f logged with none | some
  · cases none.symm.trans given
  · exact Option.some.inj (given.symm.trans some)

end Sample

/-- The sheet of a session that was removed meanwhile has no items. -/
theorem sheets_play_of_removal :
    let h := Sample.starts.play Sample.torn
    h.callers[1]? = some ⟨.questions "T", .done Sample.blank⟩ ∧
      ∃ newer d between f oldest, h.log = newer ++ d :: (between ++ f :: oldest) ∧ d.access = .sheet 1 ∧
        f.access = .findByToken "T" ∧ ∃ c ∈ between, c.Removes 1 := by
  intro h
  have told : h.callers[1]? = some ⟨.questions "T", .done Sample.blank⟩ := rfl
  obtain ⟨s, newer, d, between, f, oldest, log, -, -, access, found, access', -, -, whole, -⟩ :=
    sheets_play Course.Sample.catalog ⟨0, false⟩ none Sample.torn told
  have logged : f ∈ newer ++ d :: (between ++ f :: oldest) := by simp
  rw [← log] at logged
  obtain rfl : s = Course.Sample.session 1 := Sample.torn_found f logged s found
  refine ⟨told, newer, d, between, f, oldest, log, access', access, ?_⟩
  by_contra spared
  simp only [not_exists, not_and] at spared
  cases whole spared

/-- A sheet does not always have all slots of its session. -/
theorem not_whole_always : ¬∀ (catalog : Catalog) (now : Instant) (quota : Option Quota) (events : List Event),
    let h := (start catalog now quota).play events
    ∀ {i : Nat} {token : String} {sheet : Exam.Sheet} {f : Deed} {s : Session},
      h.callers[i]? = some ⟨.questions token, .done sheet⟩ → f ∈ (h.view i).deeds → f.access = .findByToken token →
        f.before.tables.findByToken? token = some s →
          sheet.items.map (·.sequence) = (List.range s.total.toNat).map fun k : Nat => (k : Int) + 1 := by
  intro always
  let h := Sample.starts.play Sample.torn
  have told : h.callers[1]? = some ⟨.questions "T", .done Sample.blank⟩ := rfl
  have finds : ∃ f ∈ (h.view 1).deeds, f.access = .findByToken "T" ∧
      f.before.tables.findByToken? "T" = some (Course.Sample.session 1) := by decide +kernel
  obtain ⟨f, listed, access, found⟩ := finds
  cases always Course.Sample.catalog ⟨0, false⟩ none Sample.torn told listed access found

end Proctor.Hall
