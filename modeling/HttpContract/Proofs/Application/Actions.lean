import HttpContract.Dispatch
import HttpContract.Proofs.Outcome

/-!
# What is done to an application

Routes are registered, requests are answered and the document is asked for, in any order. A
registration is prepared, or refused, before anything is changed; then its operation is
assembled, and only then its routes are added.
-/

namespace HttpContract

namespace Application

/-- What is done to an application. -/
inductive Action where
  | register (group : RouteGroup) (spec : RouteDescription)
  | request (request : Request)
  | document

/-- What comes back from an action. -/
inductive Answer where
  | accepted
  | refused (e : Failure)
  | response (response : HttpResponse)
  | document (d : Document)

/-- What an action answers, and the application after it. -/
def perform (C : Classes) (app : Application) : Action → Answer × Application
  | .register group spec =>
    match (register C group spec).run app with
    | .ok _ after => (.accepted, after)
    | .error e after => (.refused e, after)
  | .request request =>
    let (response, after) := app.dispatch C request
    (.response response, after)
  | .document =>
    let (d, after) := app.document
    (.document d, after)

/-- What several actions answer, one after the other. -/
def answers (C : Classes) (app : Application) : List Action → List Answer
  | [] => []
  | action :: rest => (app.perform C action).1 :: answers C (app.perform C action).2 rest

/-- The application after several actions. -/
def performAll (C : Classes) (app : Application) : List Action → Application
  | [] => app
  | action :: rest => performAll C (app.perform C action).2 rest

/-- The applications that actions lead to, all classes being declared before. -/
inductive Reachable (C : Classes) : Application → Prop
  | start (settings : Settings) : Reachable C (.ofSettings settings)
  | step {app : Application} (h : Reachable C app) (action : Action) :
      Reachable C (app.perform C action).2

/-- The templates and the binder of a registration, refused before anything is changed when the
paths are missing, the application is closed, or the parameters do not fit. -/
def prepare (C : Classes) (closed : Bool) (group : RouteGroup) (spec : RouteDescription) :
    Except Failure (List String × Option Binder) := do
  let paths ← Body.configured (pathsOf C spec)
  let templates := paths.map (joinPaths group.path)
  if closed then
    throw (.configuration
      (.closed s!"route {upperText (lowerText spec.method)} {textList templates}"))
  let binder ← Body.configured (C.binderOf spec.params)
  Body.configured (checkPaths binder templates)
  return (templates, binder)

/-- The operation of a registration. -/
def described (C : Classes) (group : RouteGroup) (spec : RouteDescription)
    (binder : Option Binder) : Assemble Operation := do
  let parameters ← Assembler.parameters C binder
  Assembler.operation C parameters
    { spec.operation with tags := group.tags ++ spec.operation.tags }

/-- Attaches the operation of a registration under its templates. -/
def assemble (C : Classes) (group : RouteGroup) (spec : RouteDescription)
    (templates : List String) (binder : Option Binder) : Assemble (List Operation) :=
  described C group spec binder >>= Assembler.addOperation templates (lowerText spec.method)

/-- The route of a registration under one of its templates. -/
def routeAt (C : Classes) (spec : RouteDescription) (binder : Option Binder) (template : String) :
    Route where
  method := lowerText spec.method
  template
  parts := Template.parse template
  handler := spec.handler
  binder
  body := Hint.asking spec.operation.body
  bodyRequired := (Hint.asking spec.operation.body).isSome &&
    (C.requestNote (Hint.asking spec.operation.body)).required
  status := (C.responseNote (Hint.asking spec.operation.response)).status

variable {C : Classes} {group : RouteGroup} {spec : RouteDescription} {app after : Application}

/-- A result that configuration must give changes nothing. -/
theorem run_configured {α : Type} (result : Except ConfigurationError α) :
    (configured result).run app = match Body.configured result with
      | .ok a => .ok a app
      | .error e => .error e app := by
  unfold configured
  cases Body.configured result <;> rfl

/-- A step of assembling changes the assembler only. -/
theorem run_assembling {α : Type} (step : Assemble α) :
    (assembling step).run app = match step.run app.assembler with
      | .ok a assembler => .ok a { app with assembler }
      | .error e assembler => .error e { app with assembler } := rfl

/-- Steps of assembling in a row are one such step. -/
theorem assembling_bind {α β : Type} (m : Assemble α) (k : α → Assemble β) :
    assembling (m >>= k) = assembling m >>= fun a => assembling (k a) := by
  funext app
  change (assembling (m >>= k)).run app = (assembling m >>= fun a => assembling (k a)).run app
  rw [run_assembling, EStateM.run_bind, EStateM.run_bind, run_assembling]
  cases m.run app.assembler <;> rfl

/-- After the operation is assembled the routes are added. -/
theorem run_assembled (binder : Option Binder) (templates : List String) :
    ((do
      let parameters ← assembling (Assembler.parameters C binder)
      let operation ← assembling (Assembler.operation C parameters
        { spec.operation with tags := group.tags ++ spec.operation.tags })
      let _ ← assembling (Assembler.addOperation templates (lowerText spec.method) operation)
      modify fun app =>
        { app with routes := app.routes ++ templates.map (routeAt C spec binder) }) :
      Register Unit).run app =
    match (assemble C group spec templates binder).run app.assembler with
    | .error e assembler => .error e { app with assembler }
    | .ok _ assembler =>
      .ok () { app with
        assembler, routes := app.routes ++ templates.map (routeAt C spec binder) } := by
  have hassemble (add : Register Unit) :
      (do
        let parameters ← assembling (Assembler.parameters C binder)
        let operation ← assembling (Assembler.operation C parameters
          { spec.operation with tags := group.tags ++ spec.operation.tags })
        let _ ← assembling (Assembler.addOperation templates (lowerText spec.method) operation)
        add) = assembling (assemble C group spec templates binder) >>= fun _ => add := by
    simp only [assemble, described, assembling_bind, bind_assoc]
  rw [hassemble, EStateM.run_bind, run_assembling]
  cases (assemble C group spec templates binder).run app.assembler <;> rfl

/-- A registration is prepared, then assembled, and then its routes are added behind all others. -/
theorem run_register (app : Application) :
    (register C group spec).run app =
      match prepare C app.closed group spec with
      | .error e => .error e app
      | .ok (templates, binder) =>
        match (assemble C group spec templates binder).run app.assembler with
        | .error e assembler => .error e { app with assembler }
        | .ok _ assembler =>
          .ok () { app with
            assembler, routes := app.routes ++ templates.map (routeAt C spec binder) } := by
  have hok {α β : Type} (a : α) (k : α → Except Failure β) : (Except.ok a >>= k) = k a := rfl
  unfold register registerAt prepare
  rw [EStateM.run_bind, run_configured]
  cases Body.configured (pathsOf C spec) with
  | error e => rfl
  | ok paths =>
    rw [hok]
    dsimp only
    rw [EStateM.run_bind, EStateM.run_get]
    dsimp only
    by_cases hclosed : app.closed = true
    · rw [if_pos hclosed, if_pos hclosed]
      rfl
    · rw [if_neg hclosed, if_neg hclosed, EStateM.run_bind, run_configured]
      cases Body.configured (C.binderOf spec.params) with
      | error e => rfl
      | ok binder =>
        rw [hok]
        dsimp only
        rw [EStateM.run_bind, run_configured]
        cases Body.configured (checkPaths binder (paths.map (joinPaths group.path))) with
        | error e => rfl
        | ok _ => exact run_assembled binder (paths.map (joinPaths group.path))

/-- A registration is accepted when it is prepared and its operation is assembled. -/
theorem run_register_eq_ok {group : RouteGroup} {spec : RouteDescription} {after : Application}
    (h : (register C group spec).run app = .ok () after) :
    ∃ templates binder added assembler,
      prepare C app.closed group spec = .ok (templates, binder) ∧
      (assemble C group spec templates binder).run app.assembler = .ok added assembler ∧
      { app with
        assembler, routes := app.routes ++ templates.map (routeAt C spec binder) } = after := by
  rw [run_register] at h
  split at h
  · cases h
  · rename_i templates binder hprepare
    split at h
    · cases h
    · rename_i added assembler hassemble
      cases h
      exact ⟨templates, binder, added, assembler, hprepare, hassemble, rfl⟩

/-- A registration that is refused adds no routes. -/
theorem run_register_eq_error {group : RouteGroup} {spec : RouteDescription} {after : Application}
    {e : Failure} (h : (register C group spec).run app = .error e after) :
    (prepare C app.closed group spec = .error e ∧ after = app) ∨
      ∃ templates binder assembler, prepare C app.closed group spec = .ok (templates, binder) ∧
        (assemble C group spec templates binder).run app.assembler = .error e assembler ∧
        after = { app with assembler } := by
  rw [run_register] at h
  split at h
  · rename_i hprepare
    cases h
    exact Or.inl ⟨hprepare, rfl⟩
  · rename_i templates binder hprepare
    split at h
    · rename_i assembler hassemble
      cases h
      exact Or.inr ⟨templates, binder, assembler, hprepare, hassemble, rfl⟩
    · cases h

/-- The binder of a prepared registration is made of its parameters, by an open application. -/
theorem prepare_eq_ok {closed : Bool} {group : RouteGroup} {spec : RouteDescription}
    {templates : List String} {binder : Option Binder}
    (h : prepare C closed group spec = .ok (templates, binder)) :
    closed = false ∧ C.binderOf spec.params = .ok binder := by
  unfold prepare at h
  obtain ⟨paths, _, h⟩ := bind_eq_ok_iff.mp h
  split at h
  · cases h
  · rename_i hopen
    obtain ⟨made, hmade, h⟩ := bind_eq_ok_iff.mp h
    obtain ⟨_, _, h⟩ := bind_eq_ok_iff.mp h
    cases h
    exact ⟨by simpa using hopen, mapError_eq_ok_iff.mp hmade⟩

/-- A request leaves the application as it is, or asks for its document. -/
theorem dispatch_eq (C : Classes) (app : Application) (request : Request) :
    (app.dispatch C request).2 = app ∨ (app.dispatch C request).2 = app.document.2 := by
  unfold dispatch
  split
  · exact Or.inl rfl
  · exact Or.inr rfl
  · exact Or.inl rfl
  · split
    · exact Or.inl rfl
    · exact Or.inl rfl

/-- So does the action of asking for a response. -/
theorem perform_request_eq (C : Classes) (app : Application) (request : Request) :
    (app.perform C (.request request)).2 = app ∨
      (app.perform C (.request request)).2 = app.document.2 :=
  dispatch_eq C app request

/-- Routes are only ever added, and only by a registration that is prepared and assembled. -/
theorem routes_perform (C : Classes) (app : Application) (action : Action) :
    (app.perform C action).2.routes = app.routes ∨
      ∃ group spec templates binder added assembler, action = .register group spec ∧
        prepare C app.closed group spec = .ok (templates, binder) ∧
        (assemble C group spec templates binder).run app.assembler = .ok added assembler ∧
        (app.perform C action).2.routes = app.routes ++ templates.map (routeAt C spec binder) := by
  cases action with
  | document => exact Or.inl rfl
  | request request =>
    rcases perform_request_eq C app request with hafter | hafter
    · exact Or.inl (congrArg routes hafter)
    · exact Or.inl ((congrArg routes hafter).trans rfl)
  | register group spec =>
    unfold perform
    dsimp only
    split
    · rename_i after hrun
      obtain ⟨templates, binder, added, assembler, hprepare, hassemble, rfl⟩ :=
        run_register_eq_ok hrun
      exact Or.inr ⟨group, spec, templates, binder, added, assembler, rfl, hprepare, hassemble, rfl⟩
    · rename_i e after hrun
      rcases run_register_eq_error hrun with ⟨_, rfl⟩ | ⟨_, _, _, _, _, rfl⟩
      · exact Or.inl rfl
      · exact Or.inl rfl

/-- What registration makes of its routes holds of every route of a reachable application. -/
theorem Reachable.forall_routes {P : Route → Prop} (h : Reachable C app)
    (hadded : ∀ closed group spec templates binder,
      prepare C closed group spec = .ok (templates, binder) →
      ∀ template ∈ templates, P (routeAt C spec binder template)) : ∀ r ∈ app.routes, P r := by
  induction h with
  | start settings => exact fun r hr => absurd hr List.not_mem_nil
  | @step app h action ih =>
    rcases routes_perform C app action with hkept | ⟨_, _, _, _, _, _, _, hprepare, _, hmore⟩
    · rwa [hkept]
    · rw [hmore]
      intro r hr
      rcases List.mem_append.mp hr with hr | hr
      · exact ih r hr
      · obtain ⟨template, htemplate, rfl⟩ := List.mem_map.mp hr
        exact hadded _ _ _ _ _ hprepare template htemplate

end Application

end HttpContract
