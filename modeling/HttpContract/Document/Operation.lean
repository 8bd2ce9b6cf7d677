import HttpContract.Schema.Parameter

/-!
# Operations

What a document says about one method of one path: its parameters, its body and its response.
-/

namespace HttpContract

/-- The body of a request. -/
structure RequestBody where
  description : Option String := none
  required : Bool
  schema : Schema
  deriving Repr

/-- The response of an operation; without a schema it has no body. -/
structure Response where
  status : Int
  description : String
  schema : Option Schema := none
  deriving Repr

/-- An operation of a document. -/
structure Operation where
  tags : List String := []
  summary : Option String := none
  description : Option String := none
  operationId : Option String := none
  deprecated : Bool := false
  parameters : List Parameter := []
  requestBody : Option RequestBody := none
  response : Response
  deriving Repr

/-- The methods that a path of a document has room for, in the order they are written. -/
def documentedMethods : List String :=
  ["get", "put", "post", "delete", "options", "head", "patch"]

/-- The content of a body: JSON of a schema. -/
def contentOf (schema : Schema) : Json :=
  .object [("application/json", .object [("schema", schema.toJson)])]

/-- How a request body is written. -/
def RequestBody.toJson (b : RequestBody) : Json :=
  .object <|
    Json.optional "description" (b.description.map .text) ++
    [("required", .bool b.required), ("content", contentOf b.schema)]

/-- How a response is written. -/
def Response.toJson (r : Response) : Json :=
  .object <| ("description", .text r.description) ::
    Json.optional "content" (r.schema.map contentOf)

/-- How an operation is written. -/
def Operation.toJson (o : Operation) : Json :=
  .object <|
    Json.nonempty "tags" (o.tags.map .text) ++
    Json.optional "summary" (o.summary.map .text) ++
    Json.optional "description" (o.description.map .text) ++
    Json.optional "operationId" (o.operationId.map .text) ++
    Json.flag "deprecated" o.deprecated ++
    Json.nonempty "parameters" (o.parameters.map Parameter.toJson) ++
    Json.optional "requestBody" (o.requestBody.map RequestBody.toJson) ++
    [("responses", .object [(toString o.response.status, o.response.toJson)])]

/-- The operations of a path by method. -/
abbrev PathItem := Table String Operation

namespace PathItem

/-- The operations that a document shows, in its order. -/
def documented (item : PathItem) : PathItem :=
  documentedMethods.filterMap fun method => (Table.get? method item).map (method, ·)

/-- How the operations of a path are written. -/
def toJson (item : PathItem) : Json :=
  .object (item.documented.map fun (method, operation) => (method, operation.toJson))

end PathItem

end HttpContract
