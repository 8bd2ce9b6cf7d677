import HttpContract.Document.Basic

/-!
# Assembling documents

Operations, tags and named schemas are collected until the document is finalized. From then on
nothing more is attached; a description that a tag of the document misses is still filled in.
-/

namespace HttpContract

/-- Collects the parts of one document. -/
structure Assembler where
  settings : Settings := {}
  builder : SchemaBuilder := {}
  paths : Table String PathItem := []
  tags : List Tag := []
  document : Option Document := none
  deriving Repr

/-- A step of assembling. What was done before a failure stays done. -/
abbrev Assemble := EStateM Failure Assembler

/-- What an operation is described by, besides its parameters. -/
structure OperationSpec where
  body : Option Hint := none
  response : Option Hint := none
  summary : Option String := none
  description : Option String := none
  operationId : Option String := none
  deprecated : Bool := false
  tags : List TagSource := []

/-- A hint that asks for something: the null value standing alone does not. -/
def Hint.asking (hint : Option Hint) : Option Hint := hint.filter (· != .none)

namespace Classes

/-- The notes on the class that a hint is. -/
def notesOf (C : Classes) (hint : Option Hint) : ClassNotes :=
  match hint with
  | some (.named name) => ((C.find? name).map (·.definition.notes)).getD {}
  | _ => {}

/-- What the body of a request says about itself. -/
def requestNote (C : Classes) (body : Option Hint) : RequestNote :=
  (C.notesOf body).request.getD {}

/-- What a response says about itself. -/
def responseNote (C : Classes) (response : Option Hint) : ResponseNote :=
  (C.notesOf response).response.getD {}

/-- The class that a hint is, refused when it is none. -/
def recordClass (C : Classes) (hint : Hint) : Except ConfigurationError String :=
  match hint with
  | .named name => .ok name
  | other => .error (.unsupportedType (.noRecord (C.hintText (other.normal C.isKnown))))

/-- The binder of a parameter shape. -/
def binderOf (C : Classes) (params : Option Hint) : Except ConfigurationError (Option Binder) :=
  match Hint.asking params with
  | none => .ok none
  | some hint => do
    let b ← C.binder (← C.recordClass hint)
    return some b

end Classes

namespace Assembler

/-- A step of making schemas as a step of assembling. -/
def building {α : Type} (step : BuildSchema α) : Assemble α := fun a =>
  match step.run a.builder with
  | .ok result builder => .ok result { a with builder }
  | .error e builder => .error e { a with builder }

/-- A tag added to the table, with its name. The document, if there is one, only has its own tags
filled in. -/
def addTag (source : TagSource) (a : Assembler) : String × Assembler :=
  let incoming := Tag.ofSource a.settings source
  let document := a.document.map fun d => { d with tags := d.tags.map (Tag.filledBy incoming) }
  (incoming.name, { a with tags := Tag.addTo a.tags incoming, document })

/-- Several tags added, with their names, each of them once. -/
def addTags (sources : List TagSource) (a : Assembler) : List String × Assembler :=
  sources.foldl
    (fun (names, a) source =>
      let (name, a) := a.addTag source
      (if names.contains name then names else names ++ [name], a))
    ([], a)

/-- The request body of a type. -/
def requestBody (C : Classes) (body : Hint) : Assemble RequestBody := do
  let note := C.requestNote (some body)
  let schema ← building (SchemaBuilder.ofHint C body)
  return {
    description := note.description.bind Parameter.spoken
    required := note.required
    schema }

/-- The response of a type. -/
def response (C : Classes) (hint : Option Hint) : Assemble Response := do
  let note := C.responseNote hint
  match hint with
  | none => return { status := note.status, description := note.description }
  | some type => do
    let schema ← building (SchemaBuilder.ofHint C type)
    return { status := note.status, description := note.description, schema := some schema }

/-- The operation of a description. Its tags are added to the table. -/
def operation (C : Classes) (parameters : List Parameter) (spec : OperationSpec) :
    Assemble Operation := do
  let tags ← modifyGet (addTags spec.tags)
  let requestBody ← match Hint.asking spec.body with
    | none => pure none
    | some body => do pure (some (← requestBody C body))
  let response ← response C (Hint.asking spec.response)
  return {
    tags
    summary := spec.summary.bind Parameter.spoken
    description := spec.description.bind Parameter.spoken
    operationId := spec.operationId.bind Parameter.spoken
    deprecated := spec.deprecated
    parameters
    requestBody
    response }

/-- The operations of a path. -/
def item (a : Assembler) (path : String) : PathItem :=
  (Table.get? path a.paths).getD []

/-- The paths with the operation of a method set. -/
def setPath (path method : String) (operation : Operation) (paths : Table String PathItem) :
    Table String PathItem :=
  paths.update path fun item => Table.set method operation (item.getD [])

/-- The operation as it stands under the alias of an index: the first as it is, the others with an
operation id of their own. -/
def underAlias (operation : Operation) (index : Nat) : Operation :=
  if index = 0 then operation
  else { operation with
    operationId := operation.operationId.map fun id => s!"{id}_{index + 1}" }

/-- Attaches an operation under all paths, unless one of them has the method. -/
def addOperation (paths : List String) (method : String) (operation : Operation) :
    Assemble (List Operation) := do
  let a ← get
  if a.document.isSome then
    throw (.configuration (.closed s!"operation {upperText method} {textList paths}"))
  let method := lowerText method
  match paths.find? fun path => (Table.get? method (a.item path)).isSome with
  | some path => throw (.configuration (.duplicateRoute (upperText method) path))
  | none =>
    let added := (List.range paths.length).map (underAlias operation)
    set { a with
      paths := (paths.zip added).foldl
        (fun table (path, operation) => setPath path method operation table) a.paths }
    return added

/-- The parameters that a binder reads. -/
def parameters (C : Classes) (binder : Option Binder) : Assemble (List Parameter) :=
  match binder with
  | none => pure []
  | some b => building (Parameter.ofBinder C b)

/-- Attaches an operation, described by the shape of its parameters and all else, under all
paths. -/
def describe (C : Classes) (paths : List String) (method : String) (params : Option Hint)
    (spec : OperationSpec) : Assemble (List Operation) := do
  match C.binderOf params with
  | .error e => throw (.ofConfiguration e)
  | .ok binder => do
    let parameters ← parameters C binder
    addOperation paths method (← operation C parameters spec)

/-- The document as it is at present. -/
def present (a : Assembler) : Document where
  openapi := a.settings.openapiVersion
  title := a.settings.title
  version := a.settings.version
  description := a.settings.description.bind Parameter.spoken
  servers := a.settings.servers
  paths := a.paths
  schemas := a.builder.registry.schemas
  tags := a.tags

/-- The document, made at the first call. Its schemas are frozen. -/
def finalize (a : Assembler) : Document × Assembler :=
  match a.document with
  | some d => (d, a)
  | none =>
    let builder := { a.builder with registry := a.builder.registry.freeze }
    let d := a.present
    (d, { a with builder, document := some d })

end Assembler

end HttpContract
