import HttpContract.Route.Registration
import HttpContract.Route.Query
import HttpContract.SwaggerPage

/-!
# Serving requests

A request is served by the first route of its method whose template its path has. Failures become
responses that tell what went wrong; a fault tells nothing to the client.
-/

namespace HttpContract

/-- A request as it arrives. -/
structure Request where
  method : String
  path : String
  query : String := ""
  headers : RawValues := []
  body : Option Payload := none
  /-- How many arrays and objects of the body are entered one inside the other. -/
  room : Nat := Json.usualRoom

/-- A response as it is sent. -/
structure HttpResponse where
  status : Int
  headers : List (String × String) := []
  body : String := ""
  deriving DecidableEq, Repr

namespace FailureReport

/-- Whether details say something. -/
def isTelling : Json → Bool
  | .null | .bool false | .text "" | .array [] | .object [] => false
  | .number n => !n.same (.int 0)
  | _ => true

/-- A report as the body of a response. -/
def toJson (r : FailureReport) : Json :=
  let details := match r.details with
    | some details => if isTelling details then [("details", details)] else []
    | none => []
  .object [("error", .object ([("code", .text r.code), ("message", .text r.message)] ++ details))]

/-- The report of a fault. -/
def ofFault : FailureReport := ⟨"INTERNAL_ERROR", "Internal server error", 500, none⟩

end FailureReport

namespace HttpResponse

/-- A response of JSON text. -/
def ofJsonText (status : Int) (text : String) : HttpResponse :=
  ⟨status, [("Content-Type", "application/json")], text⟩

/-- A response of HTML text. -/
def ofPage (text : String) : HttpResponse :=
  ⟨200, [("Content-Type", "text/html; charset=utf-8")], text⟩

/-- The response that a failure becomes. -/
def ofFailure (e : Failure) : HttpResponse :=
  let report := e.report?.getD FailureReport.ofFault
  ofJsonText report.status report.toJson.toBodyText

end HttpResponse

namespace Document

/-- The text of a document on one line, or with an indentation. -/
def toText (d : Document) (indent : Option Nat) : String :=
  d.toJson.write (JsonStyle.document indent)

end Document

namespace Route

/-- What a route makes of a request before its handler runs. -/
structure Call where
  params : Value
  body : Value

/-- The raw values that a route reads, `values` being those of the variables of its template. A
variable that occurs twice has its last value. -/
def rawRequest (r : Route) (request : Request) (values : List String) : RawRequest where
  query := Query.parse request.query
  headers := request.headers
  path := ((r.parts.names.zip values).map fun (name, value) =>
    (name, [Percent.decode value])).reverse

/-- Binds the parameters and decodes the body. -/
def call (C : Classes) (r : Route) (request : Request) (values : List String) :
    Except Failure Call := do
  let params ← match r.binder with
    | none => pure Value.null
    | some b => b.bind C (r.rawRequest request values)
  let body ← match r.body with
    | none => pure Value.null
    | some hint => Body.decode C request.room request.body hint r.bodyRequired
  return ⟨params, body⟩

/-- The response to a result: nothing to send has a status of its own. -/
def respond (C : Classes) (r : Route) (result : Value) : Except Failure HttpResponse :=
  match result with
  | .null => .ok { status := if r.status = 200 then 204 else r.status }
  | value => do return .ofJsonText r.status (← Body.encode C value)

/-- Serves a request. -/
def serve (C : Classes) (r : Route) (request : Request) (values : List String) :
    Except Failure HttpResponse := do
  let call ← r.call C request values
  r.respond C (← r.handler call.params call.body)

/-- The bases whose variants serving a request looks up. -/
def hierarchiesAsked (C : Classes) (r : Route) (request : Request) (values : List String) :
    List String :=
  let decoded := match r.body, r.binder with
    | some hint, some b =>
      match b.bind C (r.rawRequest request values) with
      | .ok _ => Body.hierarchiesDecoded C request.room request.body hint
      | .error _ => []
    | some hint, none => Body.hierarchiesDecoded C request.room request.body hint
    | none, _ => []
  let written := match r.call C request values with
    | .ok call =>
      match r.handler call.params call.body with
      | .ok result => Body.hierarchiesWritten C result
      | .error _ => []
    | .error _ => []
  decoded ++ written

end Route

namespace Application

/-- The routes whose template a path has, with the values of the variables. -/
def matching (app : Application) (path : String) : List (Route × List String) :=
  app.routes.filterMap fun r => (r.parts.match? path).map (r, ·)

/-- The route that serves a method on a path. -/
def select (app : Application) (method path : String) :
    Except RoutingError (Route × List String) :=
  let candidates := app.matching path
  match candidates.find? (·.1.method = method) with
  | some found => .ok found
  | none =>
    if candidates.isEmpty then .error (.notFound path)
    else
      .error (.methodNotAllowed (upperText method) path
        (candidates.map fun (r, _) => upperText r.method))

/-- What a request asks for. -/
inductive Target where
  | document
  | page
  | route (route : Route) (values : List String)

/-- What a request asks for: the document, its page, or a route. -/
def target (app : Application) (request : Request) : Except RoutingError Target :=
  let method := lowerText request.method
  let s := app.settings
  if method = "get" ∧ s.servesDocument = true ∧ request.path = s.documentPath then .ok .document
  else if method = "get" ∧ s.servesPage = true ∧ request.path = s.pagePath then .ok .page
  else (app.select method request.path).map fun (r, values) => .route r values

/-- Answers a request. Asking for the document closes the application. -/
def dispatch (C : Classes) (app : Application) (request : Request) :
    HttpResponse × Application :=
  match app.target request with
  | .error e => (.ofFailure (.routing e), app)
  | .ok .document =>
    let (d, app) := app.document
    (.ofJsonText 200 (d.toText none), app)
  | .ok .page =>
    let s := app.settings
    (.ofPage (swaggerPage s.documentPath s.title s.pageVersion), app)
  | .ok (.route r values) =>
    match r.serve C request values with
    | .ok response => (response, app)
    | .error e => (.ofFailure e, app)

/-- The bases whose variants answering a request looks up. -/
def hierarchiesAsked (C : Classes) (app : Application) (request : Request) : List String :=
  match app.target request with
  | .ok (.route r values) => r.hierarchiesAsked C request values
  | _ => []

end Application

end HttpContract
