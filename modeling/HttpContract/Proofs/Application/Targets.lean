import HttpContract.Dispatch
import HttpContract.Proofs.Outcome

/-!
# Which route a request is for

Of the routes whose template a path has, the first one of the method serves the request. The values
that it is served with are those that the template finds in the path.
-/

namespace HttpContract

namespace Application

variable {app : Application} {request : Request} {r : Route} {values : List String}

/-- The routes that match a path, with what their templates find. -/
theorem mem_matching_iff {path : String} :
    (r, values) ∈ app.matching path ↔ r ∈ app.routes ∧ r.parts.match? path = some values := by
  unfold matching
  rw [List.mem_filterMap]
  constructor
  · rintro ⟨other, hother, hmatch⟩
    obtain ⟨found, hfound, heq⟩ := Option.map_eq_some_iff.mp hmatch
    cases heq
    exact ⟨hother, hfound⟩
  · rintro ⟨hr, hmatch⟩
    exact ⟨r, hr, by rw [hmatch]; rfl⟩

/-- The route that is selected is the first of its method among those that match. -/
theorem select_eq_ok_iff {method path : String} : app.select method path = .ok (r, values) ↔
    (app.matching path).find? (·.1.method = method) = some (r, values) := by
  unfold select
  dsimp only
  split
  · rename_i found hfound
    rw [hfound]
    exact ⟨fun h => congrArg some (Except.ok.inj h), fun h => congrArg _ (Option.some.inj h)⟩
  · rename_i hnone
    rw [hnone]
    split <;> exact ⟨fun h => (nomatch h), fun h => (nomatch h)⟩

/-- A path that a route matches is served by a route, or refused with the method of the one that
matches among those that are allowed. -/
theorem select_of_mem_matching {path : String} (method : String)
    (h : (r, values) ∈ app.matching path) : (∃ found, app.select method path = .ok found) ∨
      ∃ allowed, upperText r.method ∈ allowed ∧
        app.select method path = .error (.methodNotAllowed (upperText method) path allowed) := by
  have hmatched : ¬(app.matching path).isEmpty = true := by
    rw [List.isEmpty_iff]
    exact List.ne_nil_of_mem h
  unfold select
  dsimp only
  cases (app.matching path).find? (·.1.method = method) with
  | some found => exact Or.inl ⟨found, rfl⟩
  | none => exact Or.inr ⟨_, List.mem_map.mpr ⟨(r, values), h, rfl⟩, if_neg hmatched⟩

/-- A request for a route is one for which this route is selected. -/
theorem select_of_target (h : app.target request = .ok (.route r values)) :
    app.select (lowerText request.method) request.path = .ok (r, values) := by
  unfold target at h
  dsimp only at h
  split at h
  · cases h
  · split at h
    · cases h
    · obtain ⟨found, hselect, heq⟩ := map_eq_ok_iff.mp h
      cases heq
      exact hselect

/-- A request is for a route whose template matches its path, with what it finds there. -/
theorem match?_of_target (h : app.target request = .ok (.route r values)) :
    r ∈ app.routes ∧ r.parts.match? request.path = some values := by
  have hfound := select_eq_ok_iff.mp (select_of_target h)
  exact mem_matching_iff.mp (List.mem_of_find?_eq_some hfound)

end Application

end HttpContract
