import HttpContract.Proofs.Application.Finished
import HttpContract.Proofs.Application.Recording
import HttpContract.Proofs.Application.Targets
import HttpContract.Proofs.Indifference

/-!
# Applications that are extended

Whatever is done to an application, its settings stay, and its routes stay in front of those that
are added. So a request that is for a route stays one for this route, and is answered alike; and a
request that was refused is only answered otherwise because of a route that was added and matches
its path.
-/

namespace HttpContract

namespace Application

variable {app after : Application} {request : Request} {added : List Route}

/-- Whether an application came out of another one by adding routes. -/
structure Extends (app after : Application) (added : List Route) : Prop where
  routes : after.routes = app.routes ++ added
  settings : after.settings = app.settings

/-- Every action adds routes, or none. -/
theorem exists_extends_perform (C : Classes) (app : Application) (action : Action) :
    ∃ added, app.Extends (app.perform C action).2 added := by
  have hsettings : (app.perform C action).2.settings = app.settings :=
    (fills_use C app (.act action)).settings
  rcases routes_perform C app action with hkept | ⟨_, spec, templates, binder, _, _, _, _, _, hmore⟩
  · exact ⟨[], by rw [hkept, List.append_nil], hsettings⟩
  · exact ⟨templates.map (routeAt C spec binder), hmore, hsettings⟩

/-- What adds routes twice adds the routes of both times. -/
theorem Extends.trans {between : Application} {more : List Route} (h : app.Extends between added)
    (hmore : between.Extends after more) : app.Extends after (added ++ more) :=
  ⟨by rw [hmore.routes, h.routes, List.append_assoc], hmore.settings.trans h.settings⟩

/-- A history of actions adds routes, or none. -/
theorem exists_extends_afterHistory (app : Application) (later : List (Classes × Action)) :
    ∃ added, app.Extends (app.afterHistory later) added := by
  induction later generalizing app with
  | nil => exact ⟨[], (List.append_nil _).symm, rfl⟩
  | cons step rest ih =>
    obtain ⟨added, hadded⟩ := exists_extends_perform step.1 app step.2
    obtain ⟨more, hmore⟩ := ih (app.perform step.1 step.2).2
    exact ⟨added ++ more, hadded.trans hmore⟩

/-- The routes that match a path are those from before and those that were added. -/
theorem Extends.matching_eq (h : app.Extends after added) (path : String) :
    after.matching path = app.matching path ++ matching { routes := added } path := by
  unfold matching
  rw [h.routes, List.filterMap_append]

/-- A route that is selected stays selected. -/
theorem Extends.select_of_ok (h : app.Extends after added) {method path : String}
    {found : Route × List String} (hselect : app.select method path = .ok found) :
    after.select method path = .ok found := by
  rw [select_eq_ok_iff] at hselect ⊢
  rw [h.matching_eq, List.find?_append, hselect, Option.some_or]

/-- Where no route was selected, an added one is that matches the path, or it is one of those whose
methods are allowed; without such a route the refusal stays. -/
theorem Extends.select_of_error (h : app.Extends after added) {method path : String}
    {e : RoutingError} (hselect : app.select method path = .error e) :
    after.select method path = .error e ∨
      ∃ r ∈ added, ∃ values, r.parts.match? path = some values ∧
        (after.select method path = .ok (r, values) ∨ ∃ allowed, upperText r.method ∈ allowed ∧
          after.select method path =
            .error (.methodNotAllowed (upperText method) path allowed)) := by
  have hmatching := h.matching_eq path
  cases hmore : matching { routes := added } path with
  | nil =>
    left
    rw [hmore, List.append_nil] at hmatching
    unfold select at hselect ⊢
    rwa [hmatching]
  | cons first rest =>
    right
    obtain ⟨r, values⟩ := first
    have hfirst : (r, values) ∈ matching { routes := added } path := by
      rw [hmore]
      exact List.mem_cons_self
    have hmem : (r, values) ∈ after.matching path := by
      rw [hmatching]
      exact List.mem_append_right _ hfirst
    rcases select_of_mem_matching method hmem with ⟨⟨other, found⟩, hother⟩ | hrefused
    · -- No route from before is of the method, so the one that is found was added.
      have hnone : (app.matching path).find? (·.1.method = method) = none := by
        rw [Option.eq_none_iff_forall_ne_some]
        intro before hbefore
        rw [select_eq_ok_iff.mpr hbefore] at hselect
        cases hselect
      have hfind := select_eq_ok_iff.mp hother
      rw [hmatching, List.find?_append, hnone, Option.none_or] at hfind
      obtain ⟨hadded, hmatch⟩ := mem_matching_iff.mp (List.mem_of_find?_eq_some hfind)
      exact ⟨other, hadded, found, hmatch, Or.inl hother⟩
    · obtain ⟨hadded, hmatch⟩ := mem_matching_iff.mp hfirst
      exact ⟨r, hadded, values, hmatch, Or.inr hrefused⟩

/-- A request asks for the document or its page as before, or for the route that is selected. -/
theorem Extends.target_eq_or (h : app.Extends after added) (request : Request) :
    after.target request = app.target request ∨
      app.target request = (app.select (lowerText request.method) request.path).map
          (fun (r, values) => .route r values) ∧
        after.target request = (after.select (lowerText request.method) request.path).map
          (fun (r, values) => .route r values) := by
  unfold target
  rw [h.settings]
  dsimp only
  split
  · exact Or.inl rfl
  · split
    · exact Or.inl rfl
    · exact Or.inr ⟨rfl, rfl⟩

/-- A request for a route stays one for this route. -/
theorem Extends.target_of_route (h : app.Extends after added) {r : Route} {values : List String}
    (htarget : app.target request = .ok (.route r values)) :
    after.target request = .ok (.route r values) := by
  rcases h.target_eq_or request with hsame | ⟨_, hafter⟩
  · rw [hsame, htarget]
  · rw [hafter, h.select_of_ok (select_of_target htarget)]
    rfl

/-- How a route has to do with the answer to a request: the request is for it, or it matches the
path and is one of those whose methods are allowed there. -/
inductive Concerns (app : Application) (request : Request) (r : Route) : Prop
  | serves {values : List String} (htarget : app.target request = .ok (.route r values))
  | allows {values allowed : List String} (hmatch : r.parts.match? request.path = some values)
      (hallowed : upperText r.method ∈ allowed)
      (htarget : app.target request = .error
        (.methodNotAllowed (upperText (lowerText request.method)) request.path allowed))

/-- A request that is refused stays so, unless a route was added that has to do with its answer. -/
theorem Extends.target_of_error (h : app.Extends after added) {e : RoutingError}
    (htarget : app.target request = .error e) :
    after.target request = .error e ∨ ∃ r ∈ added, after.Concerns request r := by
  rcases h.target_eq_or request with hsame | ⟨hbefore, hafter⟩
  · left
    rw [hsame, htarget]
  · rw [hbefore] at htarget
    have hselect : app.select (lowerText request.method) request.path = .error e := by
      cases hselect : app.select (lowerText request.method) request.path with
      | ok found =>
        rw [hselect] at htarget
        cases htarget
      | error e' =>
        rw [hselect] at htarget
        cases htarget
        rfl
    rcases h.select_of_error hselect with hsame | ⟨r, hr, values, hmatch, hok | hallowed⟩
    · left
      rw [hafter, hsame]
      rfl
    · exact Or.inr ⟨r, hr, .serves (by rw [hafter, hok]; rfl)⟩
    · obtain ⟨allowed, hmem, hrefused⟩ := hallowed
      exact Or.inr ⟨r, hr, .allows hmatch hmem (by rw [hafter, hrefused]; rfl)⟩

/-- Whatever is done to an application, and whichever hierarchies are settled by then, a request
that was for a route is for the same one and is answered alike, and a request that was refused is
answered alike unless a route that was added since serves it, or matches its path and is one of
those whose methods are allowed. -/
theorem answers_afterHistory (app : Application) (later : List (Classes × Action)) :
    ∃ added, app.Extends (app.afterHistory later) added ∧ ∀ C bases request,
      (∀ r values, app.target request = .ok (.route r values) →
        (app.afterHistory later).target request = .ok (.route r values) ∧
          ((app.afterHistory later).dispatch (C.settle bases) request).1 =
            (app.dispatch C request).1) ∧
      (∀ e, app.target request = .error e →
        ((app.afterHistory later).target request = .error e ∧
          ((app.afterHistory later).dispatch (C.settle bases) request).1 =
            (app.dispatch C request).1) ∨
        ∃ r ∈ added, (app.afterHistory later).Concerns request r) := by
  obtain ⟨added, hextends⟩ := exists_extends_afterHistory app later
  refine ⟨added, hextends, fun C bases request => ⟨fun r values htarget => ?_, fun e htarget => ?_⟩⟩
  · have hkept := hextends.target_of_route htarget
    refine ⟨hkept, ?_⟩
    unfold dispatch
    rw [hkept, htarget]
    dsimp only
    rw [Route.serve_settle]
    cases r.serve C request values <;> rfl
  · refine (hextends.target_of_error htarget).imp_left fun hkept => ⟨hkept, ?_⟩
    unfold dispatch
    rw [hkept, htarget]

/-- A shape with the name of a piece in the path. -/
def pieceShape : Classes :=
  ({} : Classes).define
    { name := "PiecePath", body := .record false,
      fields := [
        { name := "piece", default := .required,
          hint := .annotated (.builtin .text) [.parameter { location := .path }] }] }

/-- A route for any piece. -/
def anyPiece : RouteDescription where
  method := "GET"
  path := .one "/pieces/\x7bpiece\x7d"
  params := some (.named "PiecePath")
  handler := fun _ _ => .ok (.text "any")

/-- A route for one piece, which has a path of its own besides. -/
def newestPiece : RouteDescription where
  method := "GET"
  path := .several ["/pieces/newest", "/newest"]
  handler := fun _ _ => .ok (.text "newest")

/-- What asks for a path with the method of both routes. -/
def asksFor (path : String) : Request where
  method := "get"
  path

/-- The route for any piece keeps the path of the one that was added, after it was refused a second
time; what was not found before is for the route that was added. -/
theorem answers_afterHistory_pieces :
    let app := (ofSettings {}).afterHistory [(pieceShape, .register {} anyPiece)]
    let after := app.afterHistory [(pieceShape, .register {} anyPiece),
      (pieceShape, .register {} newestPiece), (pieceShape, .document)]
    (∃ r values, app.target (asksFor "/pieces/newest") = .ok (.route r values) ∧
      (after.dispatch (pieceShape.settle ["Piece"]) (asksFor "/pieces/newest")).1 =
        (app.dispatch pieceShape (asksFor "/pieces/newest")).1) ∧
      app.target (asksFor "/newest") = .error (.notFound "/newest") ∧
      ∃ r ∈ after.routes, after.Concerns (asksFor "/newest") r := by
  intro app after
  obtain ⟨added, hextends, hanswers⟩ := answers_afterHistory app
    [(pieceShape, .register {} anyPiece), (pieceShape, .register {} newestPiece),
      (pieceShape, .document)]
  have hmatched : ∃ r values, app.target (asksFor "/pieces/newest") = .ok (.route r values) :=
    ⟨_, _, rfl⟩
  have hmissed : app.target (asksFor "/newest") = .error (.notFound "/newest") := rfl
  have hserved : ∃ r values, after.target (asksFor "/newest") = .ok (.route r values) :=
    ⟨_, _, rfl⟩
  obtain ⟨r, values, hmatched⟩ := hmatched
  refine ⟨⟨r, values, hmatched, ?_⟩, hmissed, ?_⟩
  · exact ((hanswers pieceShape ["Piece"] _).1 r values hmatched).2
  · rcases (hanswers pieceShape ["Piece"] _).2 _ hmissed with hkept | ⟨other, hother, hconcerns⟩
    · obtain ⟨_, _, hserved⟩ := hserved
      rw [hserved] at hkept
      cases hkept.1
    · refine ⟨other, ?_, hconcerns⟩
      rw [hextends.routes]
      exact List.mem_append_right _ hother

end Application

end HttpContract
