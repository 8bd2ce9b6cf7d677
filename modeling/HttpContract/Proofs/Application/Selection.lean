import HttpContract.Proofs.Application.Extending
import HttpContract.Proofs.Route.Compiled

/-!
# Selecting a route

The routes are gone through once, in the order of registration. The first one of the method whose
expression matches the path is selected; the methods of the others that match are kept for a
refusal. So there are just three ends: a route, a method that is not allowed where other methods
are, and a path that nothing matches.
-/

namespace HttpContract

namespace Route

/-- What the groups of the expression that a route's template stands for take of a path from its
front, if the expression matches there. -/
def taken? (r : Route) (path : String) : Option (List String) :=
  Pattern.groupsAtFront? r.parts.regex path

/-- Whether the expression of a route matches a path. -/
def Matches (r : Route) (path : String) : Prop := (r.taken? path).isSome = true

instance (r : Route) (path : String) : Decidable (r.Matches path) :=
  inferInstanceAs (Decidable (_ = true))

/-- The expression of a route takes what its template finds. -/
theorem taken?_eq_match? (r : Route) (path : String) : r.taken? path = r.parts.match? path :=
  Pattern.groupsAtFront?_regex r.parts path

/-- The expression of a route matches where its template finds something. -/
theorem matches_of_match? {r : Route} {path : String} {values : List String}
    (h : r.parts.match? path = some values) : r.Matches path := by
  rw [Matches, taken?_eq_match?, h]
  rfl

end Route

namespace Application

/-- The refusal where no route is selected, by the methods of the routes that match. -/
def refusal (method path : String) : List String → RoutingError
  | [] => .notFound path
  | first :: others => .methodNotAllowed (upperText method) path (first :: others)

/-- One pass over routes in search of a method on a path, `allowed` being the methods of those
routes passed already that match. -/
def pass (method path : String) (allowed : List String) :
    List Route → Except RoutingError (Route × List String)
  | [] => .error (refusal method path allowed)
  | r :: rest =>
    match r.taken? path with
    | none => pass method path allowed rest
    | some values =>
      if r.method = method then .ok (r, values)
      else pass method path (allowed ++ [upperText r.method]) rest

/-- The upper case methods of the routes that match a path, in order. -/
def methodsOn (path : String) (routes : List Route) : List String :=
  (routes.filter fun r => r.Matches path).map fun r => upperText r.method

variable {app : Application} {method path : String} {allowed : List String} {routes : List Route}
  {r : Route} {values : List String}

/-- A route that does not match is passed. -/
theorem pass_cons_of_not_matches (h : ¬r.Matches path) :
    pass method path allowed (r :: routes) = pass method path allowed routes := by
  have hnone : r.taken? path = none := by simpa [Route.Matches] using h
  rw [pass, hnone]

/-- Of a route that matches but has another method the method is kept. -/
theorem pass_cons_of_ne (h : r.Matches path) (hmethod : r.method ≠ method) :
    pass method path allowed (r :: routes) =
      pass method path (allowed ++ [upperText r.method]) routes := by
  obtain ⟨values, hvalues⟩ := Option.isSome_iff_exists.mp h
  rw [pass, hvalues]
  exact if_neg hmethod

/-- A route that matches and has the method ends the pass. -/
theorem pass_cons_of_eq (h : r.taken? path = some values) (hmethod : r.method = method) :
    pass method path allowed (r :: routes) = .ok (r, values) := by
  rw [pass, h]
  exact if_pos hmethod

/-- Routes of which none is of the method and matches are passed, and the methods of those that
match are kept. -/
theorem pass_append {front : List Route}
    (h : ∀ other ∈ front, other.Matches path → other.method ≠ method) :
    pass method path allowed (front ++ routes) =
      pass method path (allowed ++ methodsOn path front) routes := by
  induction front generalizing allowed with
  | nil => rw [methodsOn, List.filter_nil, List.map_nil, List.append_nil, List.nil_append]
  | cons first rest ih =>
    have hrest := fun other hother => h other (List.mem_cons_of_mem _ hother)
    by_cases hfirst : first.Matches path
    · rw [List.cons_append, pass_cons_of_ne hfirst (h first List.mem_cons_self hfirst), ih hrest,
        methodsOn, methodsOn, List.filter_cons_of_pos (by simpa using hfirst), List.map_cons,
        List.append_assoc, List.singleton_append]
    · rw [List.cons_append, pass_cons_of_not_matches hfirst, ih hrest, methodsOn, methodsOn,
        List.filter_cons_of_neg (by simpa using hfirst)]

/-- Whether a route is the first one, in the order of registration, that matches a path and is of a
method; with what its groups take. -/
def IsFirst (routes : List Route) (method path : String) (r : Route) (values : List String) :
    Prop :=
  ∃ front behind, routes = front ++ r :: behind ∧ r.method = method ∧
    r.taken? path = some values ∧ ∀ other ∈ front, other.Matches path → other.method ≠ method

/-- There is a first route of a method that matches a path, or there is none at all. -/
theorem exists_isFirst_or (routes : List Route) (method path : String) :
    (∃ r values, IsFirst routes method path r values) ∨
      ∀ r ∈ routes, r.Matches path → r.method ≠ method := by
  cases hfind : routes.find? fun r => decide (r.Matches path ∧ r.method = method) with
  | none => exact Or.inr (by simpa [List.find?_eq_none] using hfind)
  | some r =>
    obtain ⟨hr, front, behind, hroutes, hfront⟩ := List.find?_eq_some_iff_append.mp hfind
    obtain ⟨hmatches, hmethod⟩ := of_decide_eq_true hr
    obtain ⟨values, hvalues⟩ := Option.isSome_iff_exists.mp hmatches
    refine Or.inl ⟨r, values, front, behind, hroutes, hmethod, hvalues,
      fun other hother hmatch => ?_⟩
    simpa [hmatch] using hfront other hother

/-- A pass ends at the first route of the method that matches the path. -/
theorem IsFirst.pass_eq (h : IsFirst routes method path r values) :
    pass method path allowed routes = .ok (r, values) := by
  obtain ⟨front, behind, rfl, hmethod, hvalues, hfront⟩ := h
  rw [pass_append hfront, pass_cons_of_eq hvalues hmethod]

/-- A pass that meets no route of the method that matches the path ends in the refusal. -/
theorem pass_eq_error (h : ∀ r ∈ routes, r.Matches path → r.method ≠ method) :
    pass method path allowed routes =
      .error (refusal method path (allowed ++ methodsOn path routes)) := by
  rw [← List.append_nil routes, pass_append h, pass, List.append_nil]

/-- A pass selects a route exactly when it is the first one. -/
theorem pass_eq_ok_iff :
    pass method path allowed routes = .ok (r, values) ↔ IsFirst routes method path r values := by
  refine ⟨fun h => ?_, IsFirst.pass_eq⟩
  rcases exists_isFirst_or routes method path with ⟨first, found, hfirst⟩ | hnone
  · rw [hfirst.pass_eq] at h
    cases h
    exact hfirst
  · rw [pass_eq_error hnone] at h
    cases h

/-- A pass ends in a refusal exactly when no route of the method matches the path. -/
theorem pass_eq_error_iff {e : RoutingError} :
    pass method path allowed routes = .error e ↔
      (∀ r ∈ routes, r.Matches path → r.method ≠ method) ∧
        e = refusal method path (allowed ++ methodsOn path routes) := by
  constructor
  · intro h
    rcases exists_isFirst_or routes method path with ⟨first, found, hfirst⟩ | hnone
    · rw [hfirst.pass_eq] at h
      cases h
    · rw [pass_eq_error hnone] at h
      exact ⟨hnone, (Except.error.inj h).symm⟩
  · rintro ⟨hnone, rfl⟩
    exact pass_eq_error hnone

/-- The methods of the routes that match a path are those of the methods that are found. -/
theorem map_matching (app : Application) (path : String) :
    (app.matching path).map (fun found => upperText found.1.method) =
      methodsOn path app.routes := by
  unfold matching methodsOn
  induction app.routes with
  | nil => rfl
  | cons r rest ih =>
    cases hvalues : r.taken? path with
    | none =>
      have hmatch : r.parts.match? path = none := by rw [← r.taken?_eq_match?, hvalues]
      rw [List.filterMap_cons_none (by rw [hmatch]; rfl), ih,
        List.filter_cons_of_neg (by simp [Route.Matches, hvalues])]
    | some values =>
      have hmatch : r.parts.match? path = some values := by rw [← r.taken?_eq_match?, hvalues]
      rw [List.filterMap_cons_some (by rw [hmatch]; rfl), List.map_cons, ih,
        List.filter_cons_of_pos (by simp [Route.Matches, hvalues]), List.map_cons]

/-- Selecting a route is one pass over the routes. -/
theorem select_eq_pass (app : Application) (method path : String) :
    app.select method path = pass method path [] app.routes := by
  have hnot (app : Application) (h : ∀ r ∈ app.routes, r.Matches path → r.method ≠ method) :
      (app.matching path).find? (·.1.method = method) = none := by
    rw [List.find?_eq_none]
    rintro ⟨r, values⟩ hmem
    obtain ⟨hr, hmatch⟩ := mem_matching_iff.mp hmem
    simpa using h r hr (Route.matches_of_match? hmatch)
  rcases exists_isFirst_or app.routes method path with ⟨r, values, hfirst⟩ | hnone
  · rw [hfirst.pass_eq, select_eq_ok_iff]
    obtain ⟨front, behind, hroutes, hmethod, hvalues, hfront⟩ := hfirst
    have hmatch : r.parts.match? path = some values := by rw [← r.taken?_eq_match?, hvalues]
    have hsplit : app.matching path = matching { routes := front } path ++
        (r, values) :: matching { routes := behind } path := by
      unfold matching
      rw [hroutes, List.filterMap_append, List.filterMap_cons_some (by rw [hmatch]; rfl)]
    rw [hsplit, List.find?_append, hnot { routes := front } hfront, Option.none_or,
      List.find?_cons_of_pos (by simpa using hmethod)]
  · rw [pass_eq_error hnone, List.nil_append, ← map_matching]
    unfold select
    dsimp only
    rw [hnot app hnone]
    cases app.matching path <;> rfl

/-- A path is not found where the refusal has no methods to list. -/
theorem refusal_eq_notFound_iff {p : String} :
    refusal method path allowed = .notFound p ↔ p = path ∧ allowed = [] := by
  cases allowed <;> simp [refusal, eq_comm]

/-- A method is not allowed where the refusal has methods to list. -/
theorem refusal_eq_methodNotAllowed_iff {m p : String} {listed : List String} :
    refusal method path allowed = .methodNotAllowed m p listed ↔
      m = upperText method ∧ p = path ∧ listed = allowed ∧ allowed ≠ [] := by
  cases allowed <;> simp [refusal, eq_comm]

/-- No methods are listed where no route matches. -/
theorem methodsOn_eq_nil_iff : methodsOn path routes = [] ↔ ∀ r ∈ routes, ¬r.Matches path := by
  simp [methodsOn, List.filter_eq_nil_iff]

/-- Whether a request asks for the document or for its page, where these are served. -/
def ServesItself (app : Application) (request : Request) : Prop :=
  lowerText request.method = "get" ∧
    (app.settings.servesDocument = true ∧ request.path = app.settings.documentPath ∨
      app.settings.servesPage = true ∧ request.path = app.settings.pagePath)

/-- Any other request is for the route that is selected. -/
theorem target_eq_of_not_servesItself {request : Request} (h : ¬app.ServesItself request) :
    app.target request = (app.select (lowerText request.method) request.path).map
      fun (r, values) => .route r values := by
  unfold target
  dsimp only
  rw [if_neg fun hdocument => h ⟨hdocument.1, Or.inl hdocument.2⟩,
    if_neg fun hpage => h ⟨hpage.1, Or.inr hpage.2⟩]

/-- Which route a method and a path are for, and why there is none. One pass over the routes in the
order of registration selects the first one of the method whose expression matches the path. It is
refused that the method is not allowed just where some route matches but none of the method does,
and the refusal lists the methods of all that match, in order and in upper case; and that the path
is not found just where no route matches. So is every request answered that asks neither for the
document nor for its page: by the selected route, or with the refusal. -/
theorem select_first_or_refused (app : Application) :
    (∀ method path,
      app.select method path = pass method path [] app.routes ∧
      (∀ r values, app.select method path = .ok (r, values) ↔
        IsFirst app.routes method path r values) ∧
      (∀ m p allowed, app.select method path = .error (.methodNotAllowed m p allowed) ↔
        ((∃ r ∈ app.routes, r.Matches path) ∧
            ∀ r ∈ app.routes, r.Matches path → r.method ≠ method) ∧
          m = upperText method ∧ p = path ∧ allowed = methodsOn path app.routes) ∧
      (∀ p, app.select method path = .error (.notFound p) ↔
        (∀ r ∈ app.routes, ¬r.Matches path) ∧ p = path)) ∧
    ∀ C request, ¬app.ServesItself request →
      let selected := app.select (lowerText request.method) request.path
      app.target request = selected.map (fun (r, values) => .route r values) ∧
        ∀ e, selected = .error e → app.dispatch C request = (.ofFailure (.routing e), app) := by
  refine ⟨fun method path => ⟨select_eq_pass app method path, fun r values => ?_,
    fun m p allowed => ?_, fun p => ?_⟩, fun C request hother => ?_⟩
  · rw [select_eq_pass, pass_eq_ok_iff]
  · rw [select_eq_pass, pass_eq_error_iff, eq_comm, List.nil_append,
      refusal_eq_methodNotAllowed_iff, ne_eq, methodsOn_eq_nil_iff]
    push Not
    constructor
    · rintro ⟨hnone, hm, hp, hallowed, hsome⟩
      exact ⟨⟨hsome, hnone⟩, hm, hp, hallowed⟩
    · rintro ⟨⟨hsome, hnone⟩, hm, hp, hallowed⟩
      exact ⟨hnone, hm, hp, hallowed, hsome⟩
  · rw [select_eq_pass, pass_eq_error_iff, eq_comm, List.nil_append, refusal_eq_notFound_iff,
      methodsOn_eq_nil_iff]
    constructor
    · rintro ⟨_, hp, hnone⟩
      exact ⟨hnone, hp⟩
    · rintro ⟨hnone, hp⟩
      exact ⟨fun r hr hmatch => absurd hmatch (hnone r hr), hp, hnone⟩
  · have htarget := target_eq_of_not_servesItself hother
    refine ⟨htarget, fun e he => ?_⟩
    unfold dispatch
    rw [htarget, he]
    rfl

/-- A route that removes the newest piece. -/
def removesNewest : RouteDescription where
  method := "DELETE"
  path := .one "/pieces/newest"
  handler := fun _ _ => .ok .null

/-- The route for any piece is the first one for the newest, too; another method is refused with
those of all routes that match, in order; and a path that no route matches is not found. -/
theorem select_first_or_refused_pieces :
    let app := (ofSettings {}).afterHistory [(pieceShape, .register {} anyPiece),
      (pieceShape, .register {} newestPiece), (pieceShape, .register {} removesNewest)]
    let newest : Request := { method := "Put", path := "/pieces/newest" }
    (∃ r, IsFirst app.routes "get" "/pieces/newest" r ["newest"] ∧
      r.template = "/pieces/{piece}") ∧
      ¬app.ServesItself newest ∧
      app.dispatch pieceShape newest = (.ofFailure (.routing
        (.methodNotAllowed "PUT" "/pieces/newest" ["GET", "GET", "DELETE"])), app) ∧
      app.select "get" "/oldest" = .error (.notFound "/oldest") ∧
      ∀ r ∈ app.routes, ¬r.Matches "/oldest" := by
  intro app newest
  obtain ⟨hselected, hanswered⟩ := select_first_or_refused app
  obtain ⟨r, hr, htemplate⟩ : ∃ r, app.select "get" "/pieces/newest" = .ok (r, ["newest"]) ∧
      r.template = "/pieces/{piece}" := ⟨_, rfl, rfl⟩
  have hother : ¬app.ServesItself newest := fun h => absurd h.1 (by decide)
  have hlower : lowerText newest.method = "put" := by decide
  have hupper : upperText "put" = "PUT" := by decide
  have hmethods : methodsOn newest.path app.routes = ["GET", "GET", "DELETE"] := by
    rw [← map_matching]
    decide +kernel
  have hnone : ∀ r ∈ app.routes, r.method ≠ "put" := by decide
  have hrefused : app.select (lowerText newest.method) newest.path =
      .error (.methodNotAllowed "PUT" newest.path ["GET", "GET", "DELETE"]) := by
    rw [hlower, select_eq_pass, pass_eq_error fun r hr _ => hnone r hr, List.nil_append, hmethods,
      refusal, hupper]
  have hmissed : app.select "get" "/oldest" = .error (.notFound "/oldest") := rfl
  refine ⟨⟨r, ((hselected _ _).2.1 _ _).mp hr, htemplate⟩, hother, ?_, hmissed,
    (((hselected _ _).2.2.2 _).mp hmissed).1⟩
  exact (hanswered pieceShape newest hother).2 _ hrefused

end Application

end HttpContract
