import HttpContract.Binding.Parser

/-!
# Binders

A binder makes a record of the raw values of a request. Each field is read from its location under
its key; a field that is a record itself is read from the query under keys in brackets.
-/

namespace HttpContract

/-- A field with the parser that reads it, the location it is read from and its key there. -/
structure BoundField (P : Type) where
  field : Field
  parser : P
  location : Location
  key : String
  deriving Repr

/-- Reads a record from the keys of the form `name[key]`. -/
structure ObjectParser where
  shape : Shape
  fields : List (BoundField FlatParser)
  deriving Repr

/-- Reads one parameter. -/
inductive ParameterParser where
  | flat (parser : FlatParser)
  | object (parser : ObjectParser)
  deriving Repr

/-- Reads the parameters of a shape. -/
structure Binder where
  shape : Shape
  fields : List (BoundField ParameterParser)
  deriving Repr

namespace Binding

/-- The values for a record's constructor, `build` giving the value of a bound field. A field
without a value is left to its default, or is null where that is allowed. -/
def collect {P : Type} (build : BoundField P → Except Failure (Option Value)) :
    List (BoundField P) → Except Failure (List (String × Value))
  | [] => .ok []
  | bound :: rest => do
    match ← build bound with
    | some v => return (bound.field.initName, v) :: (← collect build rest)
    | none =>
      if bound.field.default.isSome then collect build rest
      else if bound.field.nullable then
        return (bound.field.initName, .null) :: (← collect build rest)
      else throw (.binding (.missing bound.field.wireName))

/-- The key that a field is read from; headers do not depend on case. -/
def keyAt (location : Location) (f : Field) : String :=
  match location with
  | .header => lowerText f.wireName
  | .path | .query => f.wireName

end Binding

namespace ObjectParser

/-- The entries under keys of the form `name[key]`, by the key in brackets. -/
def entries (name : String) (raw : RawValues) : RawValues :=
  let opening := name.toList ++ ['[']
  raw.filterMap fun (key, texts) =>
    let cs := key.toList
    if opening.isPrefixOf cs && cs.getLast? == some ']' then
      some (String.ofList (cs.drop opening.length).dropLast, texts)
    else none

/-- The record made of the values under the given keys. -/
def bindValues (C : Classes) (p : ObjectParser) (raw : RawValues) : Except Failure Value := do
  let values ← Binding.collect (fun bound => bound.parser.build C bound.key raw) p.fields
  C.construct p.shape values

/-- The record under a name, none when no key belongs to it. -/
def build (C : Classes) (p : ObjectParser) (name : String) (raw : RawValues) :
    Except Failure (Option Value) :=
  match entries name raw with
  | [] => .ok none
  | nested => (p.bindValues C nested).map some

end ObjectParser

namespace ParameterParser

/-- The style of a parser. -/
def style : ParameterParser → ParameterStyle
  | .flat p => p.style
  | .object _ => .deepObject

/-- Whether each item has a text of its own. -/
def explode : ParameterParser → Bool
  | .flat p => p.explode
  | .object _ => true

/-- The value under a name, none when the request has no value. -/
def build (C : Classes) (p : ParameterParser) (name : String) (raw : RawValues) :
    Except Failure (Option Value) :=
  match p with
  | .flat p => p.build C name raw
  | .object p => p.build C name raw

end ParameterParser

/-- The raw values of a request, by location. -/
structure RawRequest where
  query : RawValues := []
  headers : RawValues := []
  path : RawValues := []

namespace RawRequest

/-- Texts added under a name, behind those that are there. -/
def addHeader (name : String) (texts : List String) (raw : RawValues) : RawValues :=
  Table.update name (fun old => old.getD [] ++ texts) raw

/-- Header values by lower case names; the values of equal names are put together in order. -/
def foldHeaders (headers : RawValues) : RawValues :=
  headers.foldl (fun merged (name, texts) => addHeader (lowerText name) texts merged) []

/-- The raw values of a location. -/
def at? (r : RawRequest) : Location → RawValues
  | .query => r.query
  | .header => foldHeaders r.headers
  | .path => r.path

end RawRequest

namespace Binder

/-- The record made of the values that `source` gives for a location. -/
def bindFrom (C : Classes) (b : Binder) (source : Location → RawValues) :
    Except Failure Value := do
  let values ← Binding.collect
    (fun bound => bound.parser.build C bound.key (source bound.location)) b.fields
  C.construct b.shape values

/-- The record made of a request. -/
def bind (C : Classes) (b : Binder) (request : RawRequest) : Except Failure Value :=
  b.bindFrom C request.at?

/-- The record made of one selection of values, whatever the locations. -/
def bindValues (C : Classes) (b : Binder) (raw : RawValues) : Except Failure Value :=
  b.bindFrom C fun _ => raw

end Binder

namespace Classes

/-- A field that cannot be read from a location. -/
def notBindable {α : Type} (f : Field) (location : Location) : Except ConfigurationError α :=
  .error (.unsupportedType (.notBindable f.name f.type.label location))

/-- A field of a nested record with its parser. -/
def boundNested (location : Location) (allowEmpty : Bool) (f : Field) :
    Except ConfigurationError (BoundField FlatParser) :=
  match Binding.flatParser? f location allowEmpty with
  | some parser => .ok ⟨f, parser, location, Binding.keyAt location f⟩
  | none => notBindable f location

/-- A type that is a record or a base of records. -/
def isRecordType : TypeInfo → Bool
  | .leaf (.record _) _ _ | .leaf (.polymorphic _) _ _ => true
  | _ => false

/-- The parser of a record nested in a parameter. Its fields use the location of the parameter,
and none of them may be a record. -/
def nestedBinder (C : Classes) (className : String) (location : Location) (allowEmpty : Bool) :
    Except ConfigurationError ObjectParser := do
  let shape ← C.shape className
  match shape.fields.find? fun f => isRecordType f.type with
  | some f => throw (.unsupportedType (.nestedRecord f.name className))
  | none => return ⟨shape, ← shape.fields.mapM (boundNested location allowEmpty)⟩

/-- The parser of a field at a location. -/
def parameterParser (C : Classes) (f : Field) (location : Location) (allowEmpty : Bool) :
    Except ConfigurationError ParameterParser :=
  match Binding.flatParser? f location allowEmpty with
  | some parser => .ok (.flat parser)
  | none =>
    match f.type, location with
    | .leaf (.record name) _ _, .query => do
      return .object (← C.nestedBinder name location allowEmpty)
    | _, _ => notBindable f location

/-- A field of a parameter shape with its parser. -/
def boundField (C : Classes) (className : String) (f : Field) :
    Except ConfigurationError (BoundField ParameterParser) :=
  match f.parameter with
  | none => .error (.unannotatedParameter className f.name)
  | some note => do
    let parser ← C.parameterParser f note.location note.allowEmpty
    return ⟨f, parser, note.location, Binding.keyAt note.location f⟩

/-- The binder of a shape all of whose fields are parameters. -/
def binder (C : Classes) (className : String) : Except ConfigurationError Binder := do
  let shape ← C.shape className
  return ⟨shape, ← shape.fields.mapM (C.boundField className)⟩

end Classes

end HttpContract
