import HttpContract.Constraint

/-!
# Schemas

A schema object of an OpenAPI document. Every attribute may be absent, and only those that are
present are written, in one fixed order whatever the order they were set in.
-/

namespace HttpContract

/-- The JSON types that a schema can ask for. -/
inductive SchemaType where
  | text
  | integer
  | number
  | boolean
  | array
  | object
  deriving DecidableEq, Repr

/-- The word for a type. -/
def SchemaType.word : SchemaType → String
  | .text => "string"
  | .integer => "integer"
  | .number => "number"
  | .boolean => "boolean"
  | .array => "array"
  | .object => "object"

/-- How a value tells which of several schemas it has: a property whose value is mapped to the name
of a schema. -/
structure Discriminator where
  property : String
  mapping : List (String × String)
  deriving DecidableEq, Repr

/-- A schema object. A reference holds the name of the schema it points to. -/
structure Schema where
  reference : Option String := none
  type : Option SchemaType := none
  format : Option String := none
  nullable : Bool := false
  default : Option Json := none
  enumeration : Option (List Json) := none
  /-- The attributes that come from constraints. -/
  limits : ConstraintAttributes := []
  items : Option Schema := none
  uniqueItems : Bool := false
  properties : Option (List (String × Schema)) := none
  required : List String := []
  additionalProperties : Option Schema := none
  allOf : List Schema := []
  oneOf : List Schema := []
  discriminator : Option Discriminator := none
  deriving Repr, Inhabited

/-- Where references to a named schema point. -/
def schemaPath (name : String) : String := "#/components/schemas/" ++ name

mutual

/-- A value as a document shows it: not a number and the infinities have no place in it. -/
def Json.finiteOnly : Json → Json
  | .number (.float x) => if x.isFinite then .number (.float x) else .null
  | .array items => .array (finiteItems items)
  | .object members => .object (finiteMembers members)
  | other => other

/-- The items of an array as a document shows them. -/
def Json.finiteItems : List Json → List Json
  | [] => []
  | item :: items => item.finiteOnly :: finiteItems items

/-- The members of an object as a document shows them. -/
def Json.finiteMembers : List (String × Json) → List (String × Json)
  | [] => []
  | (key, value) :: members => (key, value.finiteOnly) :: finiteMembers members

end

namespace Json

/-- A member that is written when it has a value. -/
def optional (key : String) : Option Json → List (String × Json)
  | some value => [(key, value)]
  | none => []

/-- A member that is written when it is true. -/
def flag (key : String) (value : Bool) : List (String × Json) :=
  if value then [(key, .bool true)] else []

/-- A member that is written when the list has items. -/
def nonempty (key : String) (items : List Json) : List (String × Json) :=
  if items.isEmpty then [] else [(key, .array items)]

end Json

/-- What is laid on top of a schema where it is used. -/
structure Decoration where
  limits : ConstraintAttributes := []
  nullable : Bool := false
  default : Option Json := none
  deriving Repr

/-- Whether there is nothing to lay on top. -/
def Decoration.isEmpty (d : Decoration) : Bool :=
  d.limits.isEmpty && !d.nullable && d.default.isNone

/-- How a discriminator is written. -/
def Discriminator.toJson (d : Discriminator) : Json :=
  .object [("propertyName", .text d.property),
    ("mapping", .object (d.mapping.map fun (value, name) => (value, .text (schemaPath name))))]

namespace Schema

/-- A bare reference to a named schema. -/
def ofReference (name : String) : Schema := { reference := some name }

/-- A schema with attributes set, later ones in the place of earlier ones of the same name. -/
def withDecoration (s : Schema) (d : Decoration) : Schema :=
  { s with
    limits := d.limits.foldl (fun limits (key, value) => Table.set key value limits) s.limits
    nullable := s.nullable || d.nullable
    default := d.default <|> s.default }

/-- A schema as it is used in one place. A reference has no room for more, so it is wrapped. -/
def decorate (s : Schema) (d : Decoration) : Schema :=
  if d.isEmpty then s
  else if s.reference.isSome then ({ allOf := [s] } : Schema).withDecoration d
  else s.withDecoration d

mutual

/-- How a schema is written. -/
def toJson (s : Schema) : Json :=
  match s with
  | ⟨reference, type, format, nullable, default, enumeration, limits, items, uniqueItems,
      properties, required, additionalProperties, allOf, oneOf, discriminator⟩ =>
    let limit (key : ConstraintAttribute) (name : String) :=
      Json.optional name (Table.get? key limits)
    .object <|
      Json.optional "$ref" (reference.map fun name => .text (schemaPath name)) ++
      Json.optional "type" (type.map fun t => .text t.word) ++
      Json.optional "format" (format.map .text) ++
      Json.flag "nullable" nullable ++
      Json.optional "default" (default.map Json.finiteOnly) ++
      Json.optional "enum" (enumeration.map fun values => .array (Json.finiteItems values)) ++
      limit .minimum "minimum" ++ limit .maximum "maximum" ++
      limit .minLength "minLength" ++ limit .maxLength "maxLength" ++
      limit .pattern "pattern" ++
      (match items with
        | some item => [("items", item.toJson)]
        | none => []) ++
      Json.flag "uniqueItems" uniqueItems ++
      (match properties with
        | some fields => [("properties", .object (membersToJson fields))]
        | none => []) ++
      Json.nonempty "required" (required.map .text) ++
      (match additionalProperties with
        | some value => [("additionalProperties", value.toJson)]
        | none => []) ++
      Json.nonempty "allOf" (listToJson allOf) ++
      Json.nonempty "oneOf" (listToJson oneOf) ++
      Json.optional "discriminator" (discriminator.map Discriminator.toJson)
termination_by structural s

/-- How the schemas of properties are written. -/
def membersToJson : List (String × Schema) → List (String × Json)
  | [] => []
  | (name, s) :: rest => (name, s.toJson) :: membersToJson rest
termination_by structural fields => fields

/-- How several schemas are written. -/
def listToJson : List Schema → List Json
  | [] => []
  | s :: rest => s.toJson :: listToJson rest
termination_by structural schemas => schemas

end

end Schema

end HttpContract
