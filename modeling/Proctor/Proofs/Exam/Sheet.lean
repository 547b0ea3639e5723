import Proctor.Proofs.Exam.Trace

/-!
# What a sheet is made of

A sheet is put together from several accesses: the session is found by its token, its slots are read, then
the questions and the answers. The deeds of a caller tell which session it found and which tables the
slots were read from (`traces_questions`); the items have the sequences of these slots.
-/

set_option autoImplicit false

namespace Proctor

/-- What a caller did first stays so. -/
theorem View.lasting_deeds (deeds : List Deed) : View.Lasting fun v => deeds <:+ v.deeds := fun _ _ grows first =>
  first.trans grows.deeds

namespace Exam

open Call

variable {i : Nat} {v : View}

theorem map_eq_of_mapM {α β γ : Type} {f : α → Except Error β} {g : β → γ} {k : α → γ} (each : ∀ a b, f a = .ok b → g b = k a)
    {l : List α} {bs : List β} (h : l.mapM f = .ok bs) : bs.map g = l.map k := by
  induction l generalizing bs with
  | nil =>
    cases h
    rfl
  | cons a l ih =>
    rw [List.mapM_cons] at h
    cases first : f a with
    | error e =>
      rw [first] at h
      cases h
    | ok b =>
      cases rest : l.mapM f with
      | error e =>
        rw [first, rest] at h
        cases h
      | ok others =>
        rw [first, rest] at h
        cases h
        rw [List.map_cons, List.map_cons, each a b first, ih rest]

theorem Joined.sequence_of_sheetItem {j : Joined} {slot : Slot} {item : SheetItem} (h : j.sheetItem slot = .ok item) :
    item.sequence = slot.sequence := by
  unfold sheetItem at h
  cases found : j.questionOf slot <;> rw [found] at h <;> cases h
  rfl

/-- The caller has found the session `s` by its token, read the clock and then, in the deed `d`, the slots of this session. -/
structure Opened (token : String) (s : Session) (d : Deed) (v : View) : Prop where
  token_eq : s.token = token
  deeds : ∃ n f, [d, n, f] <:+ v.deeds ∧ f.found? = some s.id ∧ f.before.tables.find? s.id = some s
  access : d.access = .sheet s.id

theorem lasting_opened (token : String) (s : Session) (d : Deed) : View.Lasting (Opened token s d) := by
  rintro v u grows opened
  obtain ⟨n, f, first, found, stored⟩ := opened.deeds
  exact { opened with deeds := ⟨n, f, View.lasting_deeds [d, n, f] v u grows first, found, stored⟩ }

/-- A sheet is one of the session that was found, with the sequences of its slots as they were read. -/
def Sheets (token : String) : Except Error Sheet → View → Prop
  | .ok sheet, v => ∃ s d, Opened token s d v ∧ sheet.token = s.token ∧ sheet.deadline = s.deadline ∧
      sheet.items.map (·.sequence) = (d.before.tables.sheet s.id).map (·.sequence)
  | .error _, _ => True

theorem traces_remaining (s : Session) : Traces i (fun _ _ => True) (remaining s) v := by
  unfold remaining
  split
  · trivial
  · exact meets_bind (traces_ask fun _ _ => trivial) (fun _ _ _ => trivial) fun _ _ _ => trivial

/-- The slots, the questions and the answers of a join come from one world each. -/
theorem traces_join (id : Int) : Traces i (fun r w => ∃ x y z : World,
    w.deeds = ⟨i, z, .answersOf id⟩ :: ⟨i, y, .questions ((x.tables.sheet id).map (·.question))⟩ :: ⟨i, x, .sheet id⟩ :: v.deeds ∧
      v.world.Follows x ∧ x.Follows y ∧ y.Follows z ∧ z.Follows w.world ∧
      r = .ok ⟨x.tables.sheet id, y.catalog.getAll ((x.tables.sheet id).map (·.question)), z.tables.answersOf id⟩)
    (join id) v := by
  refine meets_bind (traces_ask fun _ _ => trivial) ?_ (by rintro e w ⟨x, -, -, ⟨⟩⟩)
  rintro slots w ⟨x, rests, grows, eq⟩
  cases eq
  refine meets_bind (traces_ask fun _ _ => trivial) ?_ (by rintro e w ⟨x, -, -, ⟨⟩⟩)
  rintro questions w' ⟨y, rests', grows', eq⟩
  cases eq
  refine meets_bind (traces_ask fun _ _ => trivial) ?_ (by rintro e w ⟨x, -, -, ⟨⟩⟩)
  rintro answers w'' ⟨z, rests'', grows'', eq⟩
  cases eq
  refine ⟨x.world, y.world, z.world, ?_, rests.toFollows, rests'.toFollows, rests''.toFollows, grows''.toFollows, rfl⟩
  simp only [rests''.deeds, rests'.deeds, rests.deeds]

theorem traces_questions (token : String) (new : v.deeds = []) : Traces i (Sheets token) (questions token) v := by
  have looked := (traces_look (i := i) token new).and (accounts_look token (congrArg subject? new))
  refine meets_bind looked ?_ fun _ _ _ => trivial
  rintro s u ⟨⟨-, seen⟩, -, named⟩
  cases ensured : ensureOngoing s with
  | error e => trivial
  | ok _ =>
    obtain ⟨n, f, deeds, found, stored, -, -⟩ := seen s rfl (Session.isOngoing_iff.2 (status_of_ensureOngoing ensured))
    show Traces i (Sheets token) (join s.id >>= _) u
    refine meets_bind (traces_join s.id) ?_ fun _ _ _ => trivial
    rintro j w ⟨x, y, z, after, -, -, -, -, eq⟩
    obtain rfl := Except.ok.inj eq
    have first : [⟨i, x, .sheet s.id⟩, n, f] <:+ w.deeds := by
      rw [after, deeds]
      exact (List.suffix_cons _ _).trans (List.suffix_cons _ _)
    have opened : Opened token s ⟨i, x, .sheet s.id⟩ w := ⟨named, ⟨n, f, first, found, stored⟩, rfl⟩
    dsimp only
    cases shown : (x.tables.sheet s.id).mapM (Joined.sheetItem _) with
    | error e => trivial
    | ok items =>
      show Traces i (Sheets token) (remaining s >>= _) w
      refine meets_bind (traces_keep (lasting_opened token s _) opened (traces_remaining s)) ?_ fun _ _ _ => trivial
      rintro left u ⟨opened, -⟩
      exact ⟨s, _, opened, rfl, rfl, map_eq_of_mapM (fun _ _ => Joined.sequence_of_sheetItem) shown⟩

end Exam

end Proctor
