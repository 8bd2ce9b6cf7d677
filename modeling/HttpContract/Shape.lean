import HttpContract.Constraint

/-!
# Shapes

What a record or model is to a client: its fields in order with their names for clients, resolved
types, constraints and defaults. Schemas, parameters and bodies are all derived from the shape.
-/

namespace HttpContract

/-- One field of a shape. -/
structure Field where
  name : String
  /-- The name that clients use. -/
  wireName : String
  /-- The name that the constructor takes. -/
  initName : String
  type : TypeInfo
  /-- The value of a field that is not given. -/
  default : Option Value
  /-- Where a request carries the field, if it is a parameter. -/
  parameter : Option ParameterNote
  deriving Repr

namespace Field

/-- Whether a field may hold null. -/
def nullable (f : Field) : Bool := f.type.nullable

/-- Whether a value must be given: null is not allowed and there is no default. -/
def required (f : Field) : Bool := !f.nullable && f.default.isNone

/-- The constraints on a field. -/
def constraints (f : Field) : List Constraint := f.type.constraints

/-- Where a request carries a field. -/
def location (f : Field) : Option Location := f.parameter.map (·.location)

end Field

/-- A class with its fields as clients see them. -/
structure Shape where
  className : String
  fields : List Field
  deriving Repr

namespace Shape

/-- The field of a name. -/
def field? (s : Shape) (name : String) : Option Field := s.fields.find? (·.name = name)

/-- The name that clients use for a field known by its own name or by the constructor's. -/
def wireNameOf (s : Shape) (key : String) : String :=
  ((s.fields.find? fun f => f.name = key || f.initName = key).map (·.wireName)).getD key

end Shape

namespace Classes

/-- A failure about a type as a configuration error. -/
def typed {α : Type} (result : Except UnsupportedType α) : Except ConfigurationError α :=
  result.mapError .unsupportedType

/-- A field from its parts, refused when it names two locations or carries constraints that do
not fit its type. -/
def makeField (className name initName : String) (outerName : Option String) (type : TypeInfo)
    (default : Option Value) : Except ConfigurationError Field := do
  let parameters := parametersIn type.notes
  if 1 < parameters.length then throw (.conflictingLocations name className)
  let owner := className ++ "." ++ name
  (checkConstraints owner type type.constraints).mapError .invalidConstraint
  let wireName := match (wireNamesIn type.notes).getLast? with
    | some renamed => renamed
    | none => markedName outerName name
  return { name, wireName, initName, type, default, parameter := parameters.head? }

/-- A note on a model's field as the library reads it: bounds, lengths and patterns become
constraints, and rules that no constraint expresses are refused. -/
def nativeNote (owner : String) (collection : Bool) (note : Note) :
    Except InvalidConstraint Note :=
  match note with
  | .fieldRule rule =>
    match rule with
    | .ge bound => .ok (.constraint (.min bound none))
    | .le bound => .ok (.constraint (.max bound none))
    | .minLength bound =>
      if collection then .error (.collectionLength owner)
      else .ok (.constraint (.minLength bound none))
    | .maxLength bound =>
      if collection then .error (.collectionLength owner)
      else .ok (.constraint (.maxLength bound none))
    | .gt _ | .lt _ | .multipleOf _ => .error (.foreignRule owner rule.display true)
    | .general pattern _ maxDigits decimalPlaces =>
      if maxDigits.isSome || decimalPlaces.isSome then
        .error (.foreignRule owner rule.display false)
      else match pattern with
        | some (regex, _) => .ok (.constraint (.pattern regex none))
        | none => .ok note
    | .strict _ => .ok note
  | other => .ok other

/-- A hint without the notes around it, and those notes, the inner ones first. -/
def splitNotes : Hint → Hint × List Note
  | .annotated base notes =>
    let (inner, first) := splitNotes base
    (inner, first ++ notes)
  | h => (h, [])

/-- The type and the notes of a model's field: those of its options, then those around the hint
with options spelled out. -/
def modelNotes (C : Classes) (spec : FieldSpec) : Hint × List Note :=
  let (base, notes) := splitNotes (Hint.asReference C.isKnown (spec.hint.normal C.isKnown))
  let assigned := (spec.options.map fun o => o.rules.map Note.fieldRule).getD []
  (if base == .none then .noneType else base, assigned ++ notes.flatMap Note.expand)

/-- The name that replaces a model's field name outside, given with the field or in a note. -/
def outerNameOf (spec : FieldSpec) : Option String :=
  match spec.options.bind (·.outerName) with
  | some name => some name
  | none =>
    (splitNotes spec.hint).2.foldl
      (fun found note => match note with
        | .options o => o.outerName <|> found
        | _ => found)
      none

/-- A field of a model. -/
def modelField (C : Classes) (className : String) (spec : FieldSpec) :
    Except ConfigurationError Field := do
  let owner := className ++ "." ++ spec.name
  let (base, notes) := C.modelNotes spec
  let bare ← typed (C.resolve base [])
  let collection := match bare with
    | .leaf .. => false
    | _ => true
  let notes ← (notes.mapM (nativeNote owner collection)).mapError .invalidConstraint
  let type ← typed (C.resolve base notes)
  let outerName := outerNameOf spec
  makeField className spec.name (markedName outerName spec.name) outerName type
    spec.default.declared?

/-- The names in the hints of a record and its ancestors, the farthest first. -/
def hintNames (C : Classes) (className : String) : List String :=
  (C.ancestry className).reverse.flatMap fun name =>
    ((C.find? name).map fun entry =>
      entry.definition.fields.flatMap fun f => f.hint.names).getD []

/-- The hint of a record's field, as the nearest ancestor that writes one has it. -/
def recordHint (C : Classes) (className : String) (spec : FieldSpec) : Hint :=
  let written := (C.ancestry className).findSome? fun name =>
    (C.find? name).bind fun entry => entry.definition.fields.find? (·.name = spec.name)
  match (written.getD spec).hint with
  | .none => .noneType
  | hint => hint

/-- A field of a record. -/
def recordField (C : Classes) (className : String) (spec : FieldSpec) :
    Except ConfigurationError Field := do
  let type ← typed (C.resolve (C.recordHint className spec) [])
  makeField className spec.name spec.name none type spec.default.declared?

/-- The first name for clients that occurs twice. -/
def repeatedName? : List String → List String → Option String
  | _, [] => none
  | seen, name :: rest =>
    if seen.contains name then some name else repeatedName? (name :: seen) rest

/-- The fields of a class as clients see them. -/
def shapeFields (C : Classes) (className : String) : Except ConfigurationError (List Field) := do
  if C.isModel className then (C.fieldsOf className).mapM (C.modelField className)
  else
    match (C.hintNames className).find? fun name => !C.isKnown name with
    | some name => throw (.unsupportedType (.unresolvedName className name))
    | none =>
      ((C.fieldsOf className).filter (·.settable)).mapM (C.recordField className)

/-- The shape of a record or model. -/
def shape (C : Classes) (className : String) : Except ConfigurationError Shape := do
  if !C.isRecord className then
    throw (.unsupportedType (.noRecord (C.hintText (.named className))))
  let fields ← C.shapeFields className
  match repeatedName? [] (fields.map (·.wireName)) with
  | some name => throw (.duplicateField className name)
  | none => return ⟨className, fields⟩

/-- Adds a variant to those before it, refused when its name is taken, or when one of its fields
has the discriminator's name. -/
def addVariant (C : Classes) (base discriminator : String) (variants : Table String String)
    (className : String) : Except ConfigurationError (Table String String) := do
  if !C.isRecord className then
    throw (.unsupportedType (.variantNoRecord (C.hintText (.named className)) base))
  let name := C.wireNameOf className
  match Table.get? name variants with
  | some earlier => throw (.sharedWireName earlier className name)
  | none =>
    let shape ← C.shape className
    if shape.fields.any (·.wireName = discriminator) then
      throw (.discriminatorField className discriminator)
    return variants ++ [(name, className)]

/-- The hierarchy of a base class as its subclasses are at present. -/
def presentHierarchy (C : Classes) (base : String) : Except ConfigurationError Hierarchy := do
  match C.discriminator? base with
  | none => throw (.unsupportedType (.notPolymorphic base))
  | some discriminator =>
    let candidates := C.subclasses base
    if candidates.isEmpty then throw (.unsupportedType (.noVariants base))
    let variants ← candidates.foldlM (C.addVariant base discriminator) []
    return ⟨base, discriminator, variants⟩

/-- The hierarchy of a base class: as it was settled, or else as it is at present. -/
def hierarchy (C : Classes) (base : String) : Except ConfigurationError Hierarchy :=
  match C.settled.find? (·.base = base) with
  | some h => .ok h
  | none => C.presentHierarchy base

/-- The table with the hierarchies of the given bases settled, where they have one. -/
def settle (C : Classes) (bases : List String) : Classes :=
  bases.foldl
    (fun C base =>
      if C.settled.any (·.base = base) then C
      else match C.presentHierarchy base with
        | .ok h => { C with settled := C.settled ++ [h] }
        | .error _ => C)
    C

/-- Looks through ancestors for the hierarchy that a class is a variant of. -/
def parentAmong (C : Classes) (className : String) :
    List String → Except ConfigurationError (Option Hierarchy)
  | [] => .ok none
  | base :: rest =>
    if C.isPolymorphic base then
      match C.hierarchy base with
      | .error e => .error e
      | .ok h =>
        if (h.nameOf? className).isSome then .ok (some h) else parentAmong C className rest
    else parentAmong C className rest

/-- The hierarchy that a class is a variant of. -/
def parent (C : Classes) (className : String) : Except ConfigurationError (Option Hierarchy) :=
  C.parentAmong className (C.ancestry className).tail

/-- The bases that a look-up of the parent asks for. -/
def parentsAsked (C : Classes) (className : String) : List String :=
  go (C.ancestry className).tail
where
  /-- The bases asked for among the given ancestors. -/
  go : List String → List String
    | [] => []
    | base :: rest =>
      if C.isPolymorphic base then
        match C.hierarchy base with
        | .error _ => []
        | .ok h => if (h.nameOf? className).isSome then [base] else base :: go rest
      else go rest

end Classes

end HttpContract
