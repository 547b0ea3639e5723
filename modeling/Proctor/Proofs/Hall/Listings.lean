import Proctor.Proofs.Exam.Trace
import Proctor.Proofs.Hall.Sheets

/-!
# Listings that are made while others act

A listing reads a page and then looks at each session on it. What it holds are copies, and a session may be removed before the
listing sets out to time it out. Then the whole listing fails, and this is the only way in which it can fail (`listed_play`); so it
may fail in a hall where everybody has done nothing unusual (`not_listed_always`).
-/

set_option autoImplicit false

namespace Proctor

/-- The deed set out to time out a session that is gone. -/
def Deed.Misses (d : Deed) (id : Int) : Prop := (∃ now, d.access = .markTimedOut id now) ∧ d.before.tables.find? id = none

theorem Deed.not_misses_of_reads {d : Deed} (reads : d.access.Reads) (id : Int) : ¬d.Misses id := by
  rintro ⟨⟨_, access⟩, -⟩
  rw [access] at reads
  cases reads

/-- Whenever the caller set out to time out a session, it was there. -/
def View.MissesNone (v : View) : Prop := ∀ d ∈ v.deeds, ∀ id, ¬d.Misses id

/-- A time-out fails just if there is no such session. -/
theorem World.handle_markTimedOut_of_missing {w : World} {id : Int} (missing : w.tables.find? id = none) (now : Instant) :
    (w.handle (.markTimedOut id now)).1 = .error (.notFound (.sessionId id)) := by
  obtain ⟨-, eq⟩ | ⟨s, stored, -, -⟩ | ⟨s, stored, -, -⟩ := w.tables.markTimedOut_cases id now
  · simp only [handle, eq]
    rfl
  · cases missing.symm.trans stored
  · cases missing.symm.trans stored

theorem World.handle_markTimedOut_of_stored {w : World} {id : Int} {s : Session} (stored : w.tables.find? id = some s) (now : Instant) :
    ∃ shown, (w.handle (.markTimedOut id now)).1 = .ok shown := by
  obtain ⟨missing, -⟩ | ⟨r, -, -, eq⟩ | ⟨r, -, -, eq⟩ := w.tables.markTimedOut_cases id now
  · cases missing.symm.trans stored
  · exact ⟨r, by simp only [handle, eq]; rfl⟩
  · exact ⟨r.timedOut now, by simp only [handle, eq]; rfl⟩

namespace Exam

open Call

variable {i : Nat} {v : View} {page : List Session}

/-- What it comes to that a caller looks at the sessions of a page: a value if none of them was gone when it was to be timed
out, or else the error for one that was, in the last deed. -/
def Watches {α : Type} (page : List Session) : Except Error α → View → Prop
  | .ok _, v => v.MissesNone
  | .error e, v => ∃ s ∈ page, ∃ late d older, v.deeds = d :: older ∧ d.access = .markTimedOut s.id late ∧ s.isExpired late = true ∧
      d.Misses s.id ∧ e = .notFound (.sessionId s.id)

/-- What a listing comes to, by the page that it has read. -/
def Lists (f : Filter) (r : Except Error (List Session × Nat)) (v : View) : Prop :=
  ∃ p ∈ v.deeds, p.access = .list f ∧ Watches (p.before.tables.list f).1 r v

theorem traces_observe_page {s : Session} (listed : s ∈ page) (seen : v.tables.Recalls s) (none : v.MissesNone) :
    Traces i (Watches page) (observe s) v := by
  refine (traces_observe seen).imp ?_
  rintro r w ⟨u, -, ⟨-, rfl, deeds⟩ | ⟨expired, x, rfl, deeds⟩⟩
  · show ∀ d ∈ w.deeds, _
    rw [deeds]
    exact List.forall_mem_cons.2 ⟨Deed.not_misses_of_reads trivial, none⟩
  · cases stored : x.world.tables.find? s.id with
    | none =>
      rw [World.handle_markTimedOut_of_missing stored]
      exact ⟨s, listed, u.world.now, _, _, deeds, rfl, expired, ⟨⟨_, rfl⟩, stored⟩, rfl⟩
    | some r =>
      obtain ⟨shown, eq⟩ := World.handle_markTimedOut_of_stored stored u.world.now
      rw [eq]
      show ∀ d ∈ w.deeds, _
      rw [deeds]
      refine List.forall_mem_cons.2 ⟨?_, List.forall_mem_cons.2 ⟨Deed.not_misses_of_reads trivial, none⟩⟩
      rintro id ⟨⟨_, access⟩, missing⟩
      cases access
      cases stored.symm.trans missing

/-- A caller looks at one session after the other, and stops at the first one that is gone. -/
theorem traces_observeAll {sessions : List Session} (listed : sessions ⊆ page) (seen : ∀ s ∈ sessions, v.tables.Recalls s)
    (none : v.MissesNone) : Traces i (Watches page) (observeAll sessions) v := by
  induction sessions generalizing v with
  | nil => exact none
  | cons s rest ih =>
    obtain ⟨here, others⟩ := List.forall_mem_cons.1 seen
    obtain ⟨onPage, restOnPage⟩ := List.cons_subset.1 listed
    refine meets_bind (traces_keep (lasting_forall_recalls rest) others (traces_observe_page onPage here none)) ?_ ?_
    · rintro shown u ⟨others, none⟩
      refine meets_bind (ih restOnPage others none) ?_ ?_
      · exact fun rest' w none => none
      · exact fun e w fails => fails
    · exact fun e w fails => fails.2

theorem traces_list (f : Filter) (new : v.deeds = []) : Traces i (Lists f) (list f) v := by
  refine meets_bind (traces_ask fun _ _ => trivial) ?_ ?_
  · rintro ⟨page, total⟩ w ⟨u, rests, grows, eq⟩
    cases eq
    have valid := rests.follows.valid
    let p : Deed := ⟨i, u.world, .list f⟩
    have deeds : p :: u.deeds = [p] := by rw [rests.deeds, new]
    have seen : ∀ s ∈ (u.tables.list f).1, u.tables.Recalls s := fun s onPage =>
      Tables.recalls_of_stored valid (stored_of_mem_list valid onPage)
    have none : View.MissesNone ⟨u.world, p :: u.deeds⟩ := by
      rw [View.MissesNone, deeds]
      exact List.forall_mem_singleton.2 (Deed.not_misses_of_reads trivial)
    have lasting : View.Lasting fun v => p ∈ v.deeds := fun _ _ grows listed => grows.deeds.subset listed
    refine meets_bind (traces_keep lasting List.mem_cons_self (traces_observeAll (fun _ => id) seen none)) ?_ ?_
    · exact fun shown w ⟨read, none⟩ => ⟨p, read, rfl, none⟩
    · exact fun e w ⟨read, fails⟩ => ⟨p, read, rfl, fails⟩
  · rintro e w ⟨u, -, -, eq⟩
    cases eq

namespace Operation

/-- What the deeds of a listing tell of its outcome. -/
def Lists : (o : Operation) → Except Error o.Result → View → Prop
  | .list f, r, v => Exam.Lists f r v
  | _, _, _ => True

theorem lists_of_rests {o : Operation} {r : Except Error o.Result} {u : View} (h : o.Lists r v) (rests : v.Rests u) : o.Lists r u := by
  cases o with
  | list f =>
    cases r with
    | ok a => simpa only [Lists, Exam.Lists, Watches, View.MissesNone, rests.deeds] using h
    | error e => simpa only [Lists, Exam.Lists, Watches, rests.deeds] using h
  | _ => trivial

theorem traces_lists {o : Operation} (fits : o.fits) (new : v.deeds = []) : Traces i o.Lists o.call v := by
  cases o with
  | list f => exact traces_list f new
  | _ => exact (accounts_call fits (congrArg subject? new)).imp fun _ _ _ => trivial

end Operation

end Exam

namespace Hall

/-- Listings come to what their deeds tell. -/
theorem lists_play (catalog : Catalog) (now : Instant) (quota : Option Quota) (events : List Event) :
    ((start catalog now quota).play events).ComesTo fun o => o.Lists :=
  (sound_start catalog now quota).comesTo_play (fun o => o.Lists) Exam.Operation.lists_of_rests
    (fun fits first => Exam.Operation.traces_lists fits first) (fun here => by cases here) events

/-- **How a listing can fail**, in whatever order the callers act and whatever the clock shows: it gives a value just if each
session that it set out to time out was there. Otherwise its last deed `d` set out to time out an ongoing session of the page that it
had read in the deed `p`, at an instant past the deadline, and the session had been removed in between. -/
theorem listed_play (catalog : Catalog) (now : Instant) (quota : Option Quota) (events : List Event) :
    let h := (start catalog now quota).play events
    ∀ {i : Nat} {f : Filter} {r : Except Error (List Session × Nat)}, h.callers[i]? = some ⟨.list f, .ofExcept r⟩ →
      ((∃ listed, r = .ok listed) ↔ (h.view i).MissesNone) ∧
      ∀ e, r = .error e → ∃ s late newer d between p oldest, e = .notFound (.sessionId s.id) ∧
        h.log = newer ++ d :: (between ++ p :: oldest) ∧ d.caller = i ∧ p.caller = i ∧ p.access = .list f ∧
        s ∈ (p.before.tables.list f).1 ∧ s.status = .ongoing ∧ d.access = .markTimedOut s.id late ∧ s.deadline < late ∧
        ∃ c ∈ between, c.Removes s.id := by
  intro h i f r told
  have sound : h.Sound := sound_play catalog now quota events
  have lists : Exam.Lists f r (h.view i) := by
    have comes := lists_play catalog now quota events told
    cases r with
    | ok a => exact comes
    | error e => exact comes
  obtain ⟨p, read, access, watches⟩ := lists
  cases r with
  | ok listed => exact ⟨⟨fun _ => watches, fun _ => ⟨listed, rfl⟩⟩, fun _ failed => by cases failed⟩
  | error e =>
    obtain ⟨s, onPage, late, d, older, deeds, access', expired, misses, rfl⟩ := watches
    have made : d ∈ (h.view i).deeds := by simp [deeds]
    refine ⟨⟨fun ⟨_, ok⟩ => (by cases ok), fun none => absurd misses (none d made s.id)⟩, ?_⟩
    rintro _ ⟨⟩
    obtain ⟨newer, older', log, own, same⟩ := exists_of_suffix (deeds ▸ List.suffix_rfl : d :: older <:+ (h.view i).deeds)
    obtain rfl | earlier : p = d ∨ p ∈ older := by simpa [deeds] using read
    · cases access.symm.trans access'
    rw [same] at earlier
    obtain ⟨logged, mine⟩ := List.mem_filter.1 earlier
    obtain ⟨between, oldest, rfl⟩ := List.append_of_mem logged
    obtain ⟨ongoing, passed⟩ := Session.isExpired_iff.1 expired
    refine ⟨s, late, newer, d, between, p, oldest, rfl, log, own, by simpa using mine, access, onPage, ongoing, access', passed, ?_⟩
    have recorded := sound.recorded
    rw [log] at recorded
    have before := recorded.upTo.step.2
    have unchanged : p.after.tables = p.before.tables := World.tables_handle_of_reads (access ▸ trivial) p.before
    have stored := Exam.stored_of_mem_list before.upTo.step.2.valid onPage
    exact before.exists_removes (unchanged ▸ stored) misses.2

namespace Sample

/-- A listing of the ongoing sessions. -/
def lists : Turn := Course.Sample.turn (.list ⟨none, some .ongoing, 1, 20⟩) rfl

/-- Somebody reads a page, the session on it is cancelled, and then the deadline passes. -/
def dropped : List Event :=
  opens ++ [lists, Course.Sample.cancels].map comes ++ turns [1, 2, 2, 2] ++ List.replicate 2 (.acts 1 ⟨1800000000001, false⟩)

end Sample

/-- The listing fails, because of a session that was removed after it had read its page. -/
theorem listed_play_of_cancellation :
    let h := Sample.starts.play Sample.dropped
    h.error? 1 = some (.notFound (.sessionId 1)) ∧ h.cancelled? 2 = some 1 ∧ ¬(h.view 1).MissesNone ∧
      ∃ newer d between p oldest, h.log = newer ++ d :: (between ++ p :: oldest) ∧ d.caller = 1 ∧ p.caller = 1 ∧
        (∃ c ∈ between, c.Removes 1) := by
  intro h
  have told : h.callers[1]? = some ⟨.list ⟨none, some .ongoing, 1, 20⟩, .ofExcept (.error (.notFound (.sessionId 1)))⟩ := rfl
  obtain ⟨given, fails⟩ := listed_play Course.Sample.catalog ⟨0, false⟩ none Sample.dropped told
  obtain ⟨s, _, newer, d, between, p, oldest, same, log, own, mine, -, -, -, -, -, removed⟩ := fails _ rfl
  have same : 1 = s.id := by simpa using same
  refine ⟨by decide +kernel, by decide +kernel, fun none => ?_, newer, d, between, p, oldest, log, own, mine, ?_⟩
  · obtain ⟨_, ok⟩ := given.2 none
    cases ok
  · rwa [← same] at removed

/-- A listing does not always give a value, even if the clock never goes back. -/
theorem not_listed_always : ¬∀ (catalog : Catalog) (now : Instant) (quota : Option Quota) (events : List Event),
    (now :: events.filterMap Event.instant?).Pairwise (· ≤ ·) →
      let h := (start catalog now quota).play events
      ∀ {i : Nat} {f : Filter} {r : Except Error (List Session × Nat)}, 1 ≤ f.page → 1 ≤ f.perPage →
        h.callers[i]? = some ⟨.list f, .ofExcept r⟩ → ∃ listed, r = .ok listed := by
  intro always
  let h := Sample.starts.play Sample.dropped
  have told : h.callers[1]? = some ⟨.list ⟨none, some .ongoing, 1, 20⟩, .ofExcept (.error (.notFound (.sessionId 1)))⟩ := rfl
  obtain ⟨_, given⟩ := always Course.Sample.catalog ⟨0, false⟩ none Sample.dropped (by decide) (by decide) (by decide) told
  cases given

end Hall

end Proctor
