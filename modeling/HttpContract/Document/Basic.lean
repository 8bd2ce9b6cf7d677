import HttpContract.Document.Operation
import HttpContract.Document.Tag

/-!
# Documents

An OpenAPI document. Attributes that say nothing are left out.
-/

namespace HttpContract

/-- An OpenAPI document. -/
structure Document where
  openapi : String
  title : String
  version : String
  description : Option String := none
  servers : List String := []
  paths : Table String PathItem
  schemas : Table String Schema
  tags : List Tag := []
  deriving Repr

namespace Document

/-- What a document says about itself. -/
def infoToJson (d : Document) : Json :=
  .object <|
    [("title", .text d.title), ("version", .text d.version)] ++
    Json.optional "description" (d.description.map .text)

/-- How a document is written. -/
def toJson (d : Document) : Json :=
  .object <|
    [("openapi", .text d.openapi), ("info", d.infoToJson)] ++
    Json.nonempty "servers" (d.servers.map fun url => .object [("url", .text url)]) ++
    [("paths", .object (d.paths.map fun (path, item) => (path, item.toJson))),
      ("components", .object
        [("schemas", .object (d.schemas.map fun (name, schema) => (name, schema.toJson)))])] ++
    Json.nonempty "tags" (d.tags.map Tag.toJson)

end Document

end HttpContract
