import HttpContract.Schema.Builder
import HttpContract.Binding.Binder

/-!
# Documented parameters

The parameter objects of a document are read off the binder that serves the requests, so that style
and presence are documented as they are applied.
-/

namespace HttpContract

/-- A parameter object. -/
structure Parameter where
  name : String
  location : Location
  required : Bool
  description : Option String := none
  deprecated : Bool := false
  allowEmpty : Bool := false
  style : ParameterStyle
  explode : Bool
  schema : Schema
  default : Option Json := none
  deriving Repr

namespace Parameter

/-- How a parameter is written. -/
def toJson (p : Parameter) : Json :=
  .object <|
    [("name", .text p.name), ("in", .text p.location.text), ("required", .bool p.required)] ++
    Json.optional "description" (p.description.map .text) ++
    Json.flag "deprecated" p.deprecated ++
    Json.flag "allowEmptyValue" p.allowEmpty ++
    [("style", .text p.style.text), ("explode", .bool p.explode), ("schema", p.schema.toJson)] ++
    Json.optional "default" (p.default.map Json.finiteOnly)

/-- A text that says something. -/
def spoken (text : String) : Option String := if text.isEmpty then none else some text

/-- The parameter object of a bound field. -/
def ofBound (C : Classes) (bound : BoundField ParameterParser) : BuildSchema Parameter := do
  let f := bound.field
  let note := f.parameter.getD { location := bound.location }
  let default ← match f.default with
    | none => pure none
    | some value => do
      SchemaBuilder.ask (Body.hierarchiesWritten C value)
      pure (some (← SchemaBuilder.require (SchemaBuilder.defaultJson C f value)))
  let schema ← SchemaBuilder.ofField C f
  return {
    name := bound.key
    location := bound.location
    required := f.required
    description := spoken note.description
    deprecated := note.deprecated
    allowEmpty := note.allowEmpty && bound.location != .path
    style := bound.parser.style
    explode := bound.parser.explode
    schema
    default }

/-- The parameter objects of bound fields, in order. -/
def ofEach (C : Classes) : List (BoundField ParameterParser) → BuildSchema (List Parameter)
  | [] => pure []
  | bound :: rest => do
    let p ← ofBound C bound
    return p :: (← ofEach C rest)

/-- The parameter objects of a binder, one for each field in order. -/
def ofBinder (C : Classes) (binder : Binder) : BuildSchema (List Parameter) :=
  ofEach C binder.fields

end Parameter

end HttpContract
