import Proctor.Proofs.Hall.Steady

/-!
# No faults of our own

An operation is at fault when it comes upon something that cannot be: a write that is refused although
the session is open, a slot without its question, or a token that is in use. As the clock does not go back
and no two callers open sessions with one token, no operation ever is (`faultless_play`).
-/

set_option autoImplicit false

namespace Proctor.Hall

/-- The token that somebody comes with who opens a session. -/
def Event.newToken? (x : Event) : Option String := x.operation?.bind (·.newToken?)

variable {h : Hall} {i j : Nat} {o o' : Exam.Operation} {token : String}

/-- If no token is given twice, then one caller at most gives it. -/
theorem eq_of_newToken? (fresh : (h.operations.filterMap (·.newToken?)).Nodup) (mine : h.operations[i]? = some o)
    (theirs : h.operations[j]? = some o') (gives : o.newToken? = some token) (gives' : o'.newToken? = some token) : i = j := by
  obtain ⟨present, rfl⟩ := List.getElem?_eq_some_iff.1 mine
  obtain ⟨present', rfl⟩ := List.getElem?_eq_some_iff.1 theirs
  have apart := List.pairwise_iff_getElem.1 (List.pairwise_filterMap.1 fresh)
  by_contra ne
  rcases Nat.lt_or_gt_of_ne ne with lt | gt
  · exact apart i j present present' lt token gives token gives' rfl
  · exact apart j i present' present gt token gives' token gives rfl

namespace Steady

/-- A token that a session had when a deed was done was given by a caller who came with it. -/
theorem exists_of_token (steady : h.Steady) {newer older : List Deed} {d : Deed} {id : Int} (log : h.log = newer ++ d :: older)
    (used : d.before.tables.tokens.get? token = some id) :
    ∃ e ∈ older, ∃ o, h.operations[e.caller]? = some o ∧ e.access.newToken? = some token ∧ o.newToken? = some token := by
  obtain ⟨e, earlier, opened⟩ := (steady.recorded_before log).exists_newToken used
  obtain ⟨between, oldest, rfl⟩ := List.append_of_mem earlier
  rw [← List.cons_append, ← List.append_assoc] at log
  obtain ⟨o, own, prompt⟩ := steady.prompt log
  exact ⟨e, earlier, o, own, opened, (prompt.opens token opened).1⟩

/-- Nobody is given a token that is in use. -/
theorem not_repeats (steady : h.Steady) (fresh : (h.operations.filterMap (·.newToken?)).Nodup) (mine : h.operations[i]? = some o) :
    ¬Exam.Repeats o (h.view i) := by
  rintro ⟨d, before, token, id, deeds, gives, used, first⟩
  obtain ⟨newer, older, log, -, -, rfl⟩ := List.filter_eq_cons_iff.1 deeds
  obtain ⟨e, earlier, o', theirs, opened, gives'⟩ := steady.exists_of_token log used
  have own : i = e.caller := eq_of_newToken? fresh mine theirs gives gives'
  have listed : e ∈ older.filter (·.caller == i) := List.mem_filter.2 ⟨earlier, by simp [own]⟩
  cases (first e listed).symm.trans opened

end Steady

/-- **No operation is ever at fault**, whatever questions the catalog was filled with and in whatever order the callers
act, as long as the clock does not go back and no token is given to two callers. -/
theorem faultless_play (questions : List Question) (now : Instant) (quota : Option Quota) (events : List Event)
    (clock : (now :: events.filterMap Event.instant?).Pairwise (· ≤ ·)) (fresh : (events.filterMap Event.newToken?).Nodup) :
    ∀ i fault, ((start (.ofList questions) now quota).play events).error? i ≠ some (.internal fault) := by
  intro i fault failed
  have steady := steady_play (Catalog.keyed_ofList questions) quota clock
  obtain ⟨o, here⟩ := exists_of_error? failed
  obtain blameless | ⟨-, repeats⟩ : Exam.Sane o (fun _ _ => True) (.error (.internal fault)) _ := steady.keeps here
  · cases blameless
  · refine steady.not_repeats ?_ ?_ repeats
    · rw [operations_play, start, operations, List.map_nil, List.nil_append, List.filterMap_filterMap]
      exact fresh
    · rw [operations, List.getElem?_map, here, Option.map_some]

/-- A completion is overtaken by another one, and so is an answer: both are refused and look at the session once more. -/
theorem faultless_play_of_refused_writes :
    let events := Sample.opens ++ [.enters (.submit "T" 1 (.string "B")) rfl, .enters (.complete "T") rfl,
      .enters (.complete "T") rfl] ++ Sample.turns [1, 1, 1, 1, 1, 2, 2, 3, 3, 2, 1, 3, 1, 1, 3, 3]
    let h := Sample.starts.play events
    h.error? 1 = some (.state (.closed .completed)) ∧ h.isDone 2 = true ∧ h.isDone 3 = true ∧
      ∀ i fault, h.error? i ≠ some (.internal fault) := by
  intro events h
  refine ⟨by decide +kernel, by decide +kernel, by decide +kernel, ?_⟩
  exact faultless_play _ ⟨0, false⟩ none events (by decide) (by decide)

end Proctor.Hall
