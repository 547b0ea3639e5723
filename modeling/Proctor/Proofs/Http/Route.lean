import Proctor.Http.Route

/-!
# Paths of routes

A path is its segments with slashes between them, so that the resources without parameters have one path each.
-/

set_option autoImplicit false

namespace Proctor.Http

theorem splitAll_ne_nil (sep : Char) (cs : List Char) : splitAll sep cs ≠ [] := by
  cases cs with
  | nil => exact nofun
  | cons c cs =>
    unfold splitAll
    split
    · exact nofun
    · split <;> exact nofun

/-- What has been split is put together again with the separators. -/
theorem intercalate_splitAll (sep : Char) (cs : List Char) : [sep].intercalate (splitAll sep cs) = cs := by
  induction cs with
  | nil => rfl
  | cons c cs ih =>
    unfold splitAll
    split
    · rename_i eq
      rw [List.intercalate_cons_of_ne_nil (splitAll_ne_nil sep cs), ih, eq]
      rfl
    · split
      · rename_i none
        exact absurd none (splitAll_ne_nil sep cs)
      · rename_i part parts eq
        rw [eq] at ih
        cases parts with
        | nil => simpa using ih
        | cons next parts => simpa [List.intercalate_cons_cons] using ih

namespace Resource

variable {path : List Char} {segments : List (List Char)} {r : Resource}

/-- The resource needs a bearer token. -/
def isGuarded : Resource → Bool
  | .sessions | .listing => true
  | _ => false

/-- Below the sessions there are only resources that are addressed by the token of a session. -/
theorem not_isGuarded_of_below (eq : below segments = some r) : r.isGuarded = false := by
  unfold below at eq
  split at eq
  · split at eq <;> cases eq
    rfl
  · split at eq
    · cases eq
      rfl
    split at eq
    · cases eq
      rfl
    split at eq <;> cases eq
    rfl
  · split at eq <;> cases eq
    rfl
  · cases eq

theorem ofSegments_eq_sessions (eq : ofSegments segments = some .sessions) : segments = ["api".toList, "sessions".toList] := by
  unfold ofSegments at eq
  split at eq
  · split at eq <;> cases eq
  · split at eq
    · rename_i named
      rw [named.1, named.2]
    · cases eq
  · split at eq
    · cases eq
    split at eq
    · cases not_isGuarded_of_below eq
    · cases eq
  · cases eq

theorem ofSegments_eq_listing (eq : ofSegments segments = some .listing) :
    segments = ["api".toList, "admin".toList, "sessions".toList] := by
  unfold ofSegments at eq
  split at eq
  · split at eq <;> cases eq
  · split at eq <;> cases eq
  · split at eq
    · rename_i named
      rw [named.1, named.2.1, named.2.2.1, List.isEmpty_iff.1 named.2.2.2]
    split at eq
    · cases not_isGuarded_of_below eq
    · cases eq
  · cases eq

/-- A path that names a resource is a slash and the segments of the resource with slashes between them. -/
theorem exists_segments_of_ofPath (eq : ofPath path = some r) :
    ∃ segments, ofSegments segments = some r ∧ path = ['/'].intercalate ([] :: segments) := by
  unfold ofPath at eq
  split at eq
  · rename_i segments split
    exact ⟨segments, eq, split ▸ (intercalate_splitAll '/' path).symm⟩
  · cases eq

theorem ofPath_eq_sessions_iff : ofPath path = some .sessions ↔ path = "/api/sessions".toList := by
  refine ⟨fun eq => ?_, fun eq => eq ▸ by decide⟩
  obtain ⟨segments, named, rfl⟩ := exists_segments_of_ofPath eq
  rw [ofSegments_eq_sessions named]
  decide

theorem ofPath_eq_listing_iff : ofPath path = some .listing ↔ path = "/api/admin/sessions".toList := by
  refine ⟨fun eq => ?_, fun eq => eq ▸ by decide⟩
  obtain ⟨segments, named, rfl⟩ := exists_segments_of_ofPath eq
  rw [ofSegments_eq_listing named]
  decide

end Resource

end Proctor.Http
