import HttpContract.Schema.Registry
import HttpContract.Body.Writer

/-!
# Making schemas

A resolved type becomes a schema. Records, enumerations and bases of variants are named: their
bodies go to the registry once, and every use is a reference. References are given out before the
body is made, so types may refer to each other in circles; since every body begun has a class of its
own, bodies are nested no deeper than there are classes.
-/

namespace HttpContract

/-- Makes the schemas of one document: the registry, the classes whose references were given out,
and the bases whose variants were looked up. -/
structure SchemaBuilder where
  registry : SchemaRegistry := {}
  referenced : List String := []
  asked : List String := []
  deriving Repr

/-- A step of making schemas. What was done before a failure stays done. -/
abbrev BuildSchema := EStateM Failure SchemaBuilder

namespace SchemaBuilder

/-- Continues with a result, or stops at its failure. -/
def require {α : Type} (result : Except Failure α) : BuildSchema α :=
  match result with
  | .ok a => pure a
  | .error e => throw e

/-- Continues with a result, or stops at its failure. -/
def configured {α : Type} (result : Except ConfigurationError α) : BuildSchema α :=
  require (Body.configured result)

/-- Notes that the variants of bases were looked up. -/
def ask (bases : List String) : BuildSchema Unit :=
  modify fun b => { b with asked := b.asked ++ bases }

/-- The schema of a scalar type. -/
def scalarSchema : Scalar → Schema
  | .text => { type := some .text }
  | .integer => { type := some .integer, format := some "int64" }
  | .number => { type := some .number, format := some "double" }
  | .boolean => { type := some .boolean }
  | .uuid => { type := some .text, format := some "uuid" }
  | .date => { type := some .text, format := some "date" }
  | .dateTime => { type := some .text, format := some "date-time" }

/-- Whether a JSON value is an integer. -/
def isInteger : Json → Bool
  | .number (.int _) => true
  | _ => false

/-- Whether a JSON value is a number. -/
def isNumber : Json → Bool
  | .number _ => true
  | _ => false

/-- The type that the values of an enumeration are given: the narrowest of the number types, or
else text. -/
def valuesType (values : List Json) : SchemaType :=
  if values.all isInteger then .integer
  else if values.all isNumber then .number
  else .text

/-- The default of a field as a JSON value. A default without JSON form is a failure of its own. -/
def defaultJson (C : Classes) (f : Field) (value : Value) : Except Failure Json :=
  match Body.toJson C value with
  | .error (.fault (.notSerializable type)) =>
    .error (.unsupported (.defaultWithoutForm f.name (Fault.notSerializable type).message))
  | result => result

/-- The reference to a class. Its name is reserved at the first call, and its body made if no one
has reserved the name before. -/
def named (C : Classes) (className : String) (body : BuildSchema Schema) :
    BuildSchema Schema := do
  let name := C.schemaNameOf className
  if (← get).referenced.contains className then return .ofReference name
  let (isNew, registry) ← configured ((← get).registry.reserve name className)
  modify fun b => { b with registry, referenced := b.referenced ++ [className] }
  if isNew then
    let schema ← body
    modify fun b => { b with registry := b.registry.complete name schema }
  return .ofReference name

/-- The schema of an enumeration. -/
def enumerationBody (C : Classes) (name : String) : BuildSchema Schema := do
  let members := ((C.enumeration? name).map (·.members)).getD []
  let values ← members.mapM fun (_, value) => require (Body.toJson C value)
  return { type := some (valuesType values), enumeration := some values }

/-- The schema of a type, `leaf` giving the schemas of the forms that have a name. -/
def typeSchema (leaf : Leaf → BuildSchema Schema) : TypeInfo → BuildSchema Schema
  | .leaf form nullable notes => do
    let s ← match form with
      | .scalar s => pure (scalarSchema s)
      | .any => pure {}
      | form => leaf form
    return s.decorate { limits := schemaAttributes (constraintsIn notes), nullable }
  | .array container item nullable notes => do
    let items := (← typeSchema leaf item).decorate
      { limits := schemaAttributes (constraintsIn notes) }
    let uniqueItems := container = .set || container = .frozenset
    return ({ type := some .array, items := some items, uniqueItems } : Schema).decorate
      { nullable }
  | .map item nullable notes => do
    let values ← typeSchema leaf item
    return ({ type := some .object, additionalProperties := some values } : Schema).decorate
      { limits := schemaAttributes (constraintsIn notes), nullable }

/-- The schema of a field, with its default when it has one. -/
def fieldSchema (C : Classes) (leaf : Leaf → BuildSchema Schema) (f : Field) :
    BuildSchema Schema := do
  let s ← typeSchema leaf f.type
  match f.default with
  | none => return s
  | some value => do
    ask (Body.hierarchiesWritten C value)
    let default ← require (defaultJson C f value)
    return s.decorate { default := some default }

/-- The schemas of fields by the names that clients use. -/
def fieldSchemas (C : Classes) (leaf : Leaf → BuildSchema Schema) :
    List Field → BuildSchema (List (String × Schema))
  | [] => pure []
  | f :: rest => do
    let s ← fieldSchema C leaf f
    return (f.wireName, s) :: (← fieldSchemas C leaf rest)

/-- The schema of a record: of a variant the discriminator with its one value, and all fields. -/
def recordBody (C : Classes) (leaf : Leaf → BuildSchema Schema) (className : String) :
    BuildSchema Schema := do
  ask (C.parentsAsked className)
  let parent ← configured (C.parent className)
  let shape ← configured (C.shape className)
  let fields ← fieldSchemas C leaf shape.fields
  let required := (shape.fields.filter (·.required)).map (·.wireName)
  match parent with
  | none => return { type := some .object, properties := some fields, required }
  | some h =>
    let tag : Schema :=
      { type := some .text,
        enumeration := some [.text ((h.nameOf? className).getD className)] }
    return {
      type := some .object
      properties := some ((h.discriminator, tag) :: fields)
      required := h.discriminator :: required }

/-- The references to the variants of a base, `record` giving that to a class. -/
def variantReferences (record : String → BuildSchema Schema) :
    List (String × String) → BuildSchema (List Schema)
  | [] => pure []
  | (_, className) :: rest => do
    let s ← record className
    return s :: (← variantReferences record rest)

/-- The schema of a base of variants. -/
def variantsBody (C : Classes) (record : String → BuildSchema Schema) (h : Hierarchy) :
    BuildSchema Schema := do
  let oneOf ← variantReferences record h.variants
  let mapping := h.variants.map fun (name, className) => (name, C.schemaNameOf className)
  return { oneOf, discriminator := some ⟨h.discriminator, mapping⟩ }

/-- The references to the forms that have a name, bodies being nested no deeper than `depth`. -/
def leafSchema (C : Classes) : (depth : Nat) → Leaf → BuildSchema Schema
  | _, .enumeration name => named C name (enumerationBody C name)
  | 0, _ => throw (.fault .tooDeep)
  | depth + 1, .record name => named C name (recordBody C (leafSchema C depth) name)
  | depth + 1, .polymorphic base => do
    ask [base]
    let h ← configured (C.hierarchy base)
    named C base (variantsBody C (fun name => leafSchema C depth (.record name)) h)
  | _ + 1, .scalar s => pure (scalarSchema s)
  | _ + 1, .any => pure {}

/-- How deep bodies can be nested: every class has one, and the reference to a class whose body is
begun needs no depth but one. -/
def greatestDepth (C : Classes) : Nat := C.entries.length + 1

/-- The schema of a resolved type. -/
def ofType (C : Classes) (type : TypeInfo) : BuildSchema Schema :=
  typeSchema (leafSchema C (greatestDepth C)) type

/-- The schema of a hint. -/
def ofHint (C : Classes) (hint : Hint) : BuildSchema Schema := do
  ofType C (← configured (Classes.typed (C.resolve hint [])))

/-- The schema of a field as a property. -/
def ofField (C : Classes) (f : Field) : BuildSchema Schema :=
  fieldSchema C (leafSchema C (greatestDepth C)) f

end SchemaBuilder

end HttpContract
