import HttpContract.Document.Assembler
import HttpContract.Route.Template

/-!
# Registering routes

An application is a document under construction together with the routes that serve it. A route is
registered in one go: its binder, its parameters, its schemas and its operation are made once, and
requests only use them.
-/

namespace HttpContract

/-- What serves a request: a function of the bound parameters and the decoded body. -/
abbrev Handler := Value → Value → Except Failure Value

/-- The paths that a route is asked to be served under. -/
inductive PathChoice where
  /-- Those that the class of the parameters is marked with. -/
  | marked
  | one (path : String)
  | several (paths : List String)
  deriving Repr

/-- A route as it is asked for. -/
structure RouteDescription where
  method : String
  path : PathChoice
  params : Option Hint := none
  operation : OperationSpec := {}
  handler : Handler

/-- A route that serves requests. -/
structure Route where
  method : String
  template : String
  parts : Template
  handler : Handler
  binder : Option Binder
  body : Option Hint
  bodyRequired : Bool
  status : Int

/-- An application: its routes in the order of registration, and its document. It is closed once
the document was asked for. -/
structure Application where
  assembler : Assembler := {}
  routes : List Route := []
  closed : Bool := false

/-- A step of registration. What was done before a failure stays done. -/
abbrev Register := EStateM Failure Application

/-- Routes below a common path and with common tags. -/
structure RouteGroup where
  path : String := ""
  tags : List TagSource := []

namespace RouteGroup

/-- A group within a group. -/
def group (g : RouteGroup) (path : String) (tags : List TagSource) : RouteGroup :=
  ⟨joinPaths g.path path, g.tags ++ tags⟩

end RouteGroup

namespace Application

/-- An application with the given settings. -/
def ofSettings (settings : Settings) : Application := { assembler := { settings } }

/-- The settings of an application. -/
def settings (app : Application) : Settings := app.assembler.settings

/-- A step of assembling as a step of registration. -/
def assembling {α : Type} (step : Assemble α) : Register α := fun app =>
  match step.run app.assembler with
  | .ok result assembler => .ok result { app with assembler }
  | .error e assembler => .error e { app with assembler }

/-- The names of the path parameters that a binder reads. -/
def pathKeys (binder : Option Binder) : List String :=
  match binder with
  | none => []
  | some b => (b.fields.filter (·.location = .path)).map (·.key)

/-- Refuses a template whose variables are not the path parameters that a binder reads. -/
def checkPath (binder : Option Binder) (template : String) : Except ConfigurationError Unit :=
  let declared := pathKeys binder
  let names := (Template.parse template).names
  let missing := names.filter (!declared.contains ·)
  let unused := declared.filter (!names.contains ·)
  if missing.isEmpty && unused.isEmpty then .ok ()
  else .error (.pathMismatch template missing unused)

/-- Refuses the first of several templates that does not fit a binder. -/
def checkPaths (binder : Option Binder) : List String → Except ConfigurationError Unit
  | [] => .ok ()
  | template :: rest => do
    checkPath binder template
    checkPaths binder rest

/-- The paths that a route is asked to be served under. -/
def pathsOf (C : Classes) (spec : RouteDescription) : Except ConfigurationError (List String) :=
  match spec.path with
  | .one path => .ok [path]
  | .several paths => .ok paths
  | .marked =>
    match (C.notesOf (Hint.asking spec.params)).paths with
    | some (path :: paths) => .ok (path :: paths)
    | _ => .error .missingPath

/-- Continues with a result, or stops at its failure. -/
def configured {α : Type} (result : Except ConfigurationError α) : Register α :=
  match Body.configured result with
  | .ok a => pure a
  | .error e => throw e

/-- Registers a route under templates. -/
def registerAt (C : Classes) (method : String) (templates : List String) (spec : RouteDescription) :
    Register Unit := do
  if (← get).closed then
    throw (.configuration (.closed s!"route {upperText method} {textList templates}"))
  let binder ← configured (C.binderOf spec.params)
  configured (checkPaths binder templates)
  let parameters ← assembling (Assembler.parameters C binder)
  let operation ← assembling (Assembler.operation C parameters spec.operation)
  let _ ← assembling (Assembler.addOperation templates method operation)
  let body := Hint.asking spec.operation.body
  let route (template : String) : Route := {
    method
    template
    parts := Template.parse template
    handler := spec.handler
    binder
    body
    bodyRequired := body.isSome && (C.requestNote body).required
    status := (C.responseNote (Hint.asking spec.operation.response)).status }
  modify fun app => { app with routes := app.routes ++ templates.map route }

/-- Registers a route of a group. -/
def register (C : Classes) (g : RouteGroup) (spec : RouteDescription) : Register Unit := do
  let paths ← configured (pathsOf C spec)
  let operation := { spec.operation with tags := g.tags ++ spec.operation.tags }
  registerAt C (lowerText spec.method) (paths.map (joinPaths g.path)) { spec with operation }

/-- The document, which closes the application. -/
def document (app : Application) : Document × Application :=
  let (d, assembler) := app.assembler.finalize
  (d, { app with assembler, closed := true })

end Application

end HttpContract
