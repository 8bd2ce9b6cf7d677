import HttpContract.Construction
import HttpContract.Json.Bytes

/-!
# Reading bodies

A JSON value is read as a value of a resolved type. The reader of a JSON value is built from the
readers of its parts, so it is defined by recursion on the JSON value alone, although types refer
to each other in circles.
-/

namespace HttpContract

/-- Reads one JSON value as a type, at a path, under constraints that come from outside. -/
abbrev ValueReader := TypeInfo → String → List Constraint → Except Failure Value

namespace Body

/-- A path as the place of a failure, the empty path being the whole body. -/
def place (path : String) : Option String := if path.isEmpty then none else some path

/-- The path of a member below a path. -/
def memberPath (path key : String) : String := if path.isEmpty then key else path ++ "." ++ key

/-- The path of an item below a path. -/
def itemPath (path : String) (index : Nat) : String := s!"{path}[{index}]"

/-- A value of another kind than expected. -/
def mismatch {α : Type} (path : String) (expected : Expected) (found : Json) : Except Failure α :=
  .error (.refused (place path) (.mismatch expected found.typeName))

/-- A text of the expected kind that a conversion cannot take. -/
def unreadableAs {α : Type} (path : String) (expected : Expected) : Except Failure α :=
  .error (.refused (place path) (.unreadableAs expected))

/-- Reads a text by a conversion. -/
def readText (path : String) (expected : Expected) (convert : String → Option Value)
    (data : Json) : Except Failure Value :=
  match data with
  | .text s =>
    match convert s with
    | some v => .ok v
    | none => unreadableAs path expected
  | other => mismatch path expected other

/-- A JSON value as a double; an integer is rounded to the nearest one. -/
def readNumber (path : String) (data : Json) : Except Failure Value :=
  match data with
  | .number (.int n) =>
    match Double.ofInt? n with
    | some x => .ok (.float x)
    | none => .error (.fault .integerTooLarge)
  | .number (.float x) =>
    if x.isFinite then .ok (.float x) else mismatch path .finiteNumber data
  | other => mismatch path .number other

/-- Reads a scalar value, before constraints. -/
def readScalar (path : String) (type : Scalar) (data : Json) : Except Failure Value :=
  match type with
  | .text =>
    match data with
    | .text s => .ok (.text s)
    | other => mismatch path .text other
  | .integer =>
    match data with
    | .number (.int n) => .ok (.int n)
    | other => mismatch path .integer other
  | .number => readNumber path data
  | .boolean =>
    match data with
    | .bool b => .ok (.bool b)
    | other => mismatch path .boolean other
  | .uuid => readText path .uuid (fun s => (Uuid.parse? s).map .uuid) data
  | .date => readText path .date (fun s => (Date.parse? s).map .date) data
  | .dateTime => readText path .dateTime (fun s => (DateTime.parse? s).map .dateTime) data

/-- Whether constraints are applied to values of a scalar type. -/
def takesConstraints : Scalar → Bool
  | .text | .integer | .number => true
  | _ => false

/-- The member of an enumeration with a given name and value. -/
def memberValue (name : String) (e : Enumeration) (member : String × Value) : Value :=
  .member name member.1 e.mixin member.2

/-- Reads a member of an enumeration: the first one whose value equals the JSON value, or else the
one that a text names. -/
def readMember (name : String) (e : Enumeration) (path : String) (data : Json) :
    Except Failure Value :=
  match e.members.find? fun (_, value) => value.same (Value.ofJson data) with
  | some member => .ok (memberValue name e member)
  | none =>
    let named := match data with
      | .text s => e.find? s
      | _ => none
    match named with
    | some member => .ok (memberValue name e member)
    | none => .error (.refused (place path) (.notListed (e.members.map (·.2))))

/-- What keeps a value out of sets: the name of a type without hash. -/
def unhashable? (C : Classes) : Value → Option String
  | .list _ => some "list"
  | .dict _ => some "dict"
  | .set false _ => some "set"
  | .tuple items => firstUnhashable C items
  | .record c attributes =>
    if C.isHashable c then firstUnhashableAttribute C attributes else some c
  | _ => none
where
  /-- The first type without hash among several values. -/
  firstUnhashable (C : Classes) : List Value → Option String
    | [] => none
    | v :: vs => unhashable? C v <|> firstUnhashable C vs
  /-- The first type without hash among attributes. -/
  firstUnhashableAttribute (C : Classes) : List (String × Value) → Option String
    | [] => none
    | (_, v) :: rest => unhashable? C v <|> firstUnhashableAttribute C rest

/-- Items as a container holds them. A set keeps the first of equal items. -/
def contain (C : Classes) (container : Container) (items : List Value) :
    Except Failure Value :=
  let asSet (frozen : Bool) : Except Failure Value :=
    match items.findSome? (unhashable? C) with
    | some type => .error (.fault (.unhashable type))
    | none => .ok (.set frozen (Value.withoutRepeats items))
  match container with
  | .list => .ok (.list items)
  | .tuple => .ok (.tuple items)
  | .set => asSet false
  | .frozenset => asSet true

/-- Reads the items of an array one after the other, the first having the given index. -/
def readItems (item : TypeInfo) (path : String) (constraints : List Constraint) (index : Nat) :
    List ValueReader → Except Failure (List Value)
  | [] => .ok []
  | reader :: rest => do
    let v ← reader item (itemPath path index) constraints
    return v :: (← readItems item path constraints (index + 1) rest)

/-- Reads the members of an object as entries with texts for keys. -/
def readEntries (item : TypeInfo) (path : String) :
    List (String × ValueReader) → Except Failure (List (Value × Value))
  | [] => .ok []
  | (key, reader) :: rest => do
    let v ← reader item (memberPath path key) []
    return (.text key, v) :: (← readEntries item path rest)

/-- The values for a record's constructor: of each field its member's, or null where the member is
missing and null stands for that. A field with a default is left out. -/
def readFields (path : String) (readers : Table String ValueReader) :
    List Field → Except Failure (List (String × Value))
  | [] => .ok []
  | f :: rest =>
    let label := memberPath path f.wireName
    match Table.get? f.wireName readers with
    | some reader => do
      let v ← reader f.type label []
      return (f.initName, v) :: (← readFields path readers rest)
    | none =>
      if f.default.isSome then readFields path readers rest
      else if f.nullable then do
        return (f.initName, .null) :: (← readFields path readers rest)
      else .error (.binding (.missing label))

/-- Reads an object as a record of a shape. -/
def readRecord (C : Classes) (shape : Shape) (readers : List (String × ValueReader))
    (path : String) : Except Failure Value := do
  C.construct shape (← readFields path readers shape.fields)

/-- What describing classes comes to, where it may fail in any way. -/
def configured {α : Type} (result : Except ConfigurationError α) : Except Failure α :=
  result.mapError .ofConfiguration

/-- Reads an object as the variant that its discriminator names. -/
def readVariant (C : Classes) (base : String) (members : List (String × Json))
    (readers : List (String × ValueReader)) (path : String) : Except Failure Value := do
  let h ← configured (C.hierarchy base)
  let label := memberPath path h.discriminator
  match Table.get? h.discriminator members with
  | none | some .null => throw (.refused (some label) .noVariantNamed)
  | some tag =>
    let variant := match tag with
      | .text name => h.variant? name
      | _ => none
    match variant with
    | none =>
      throw (.refused (some label) (.unknownVariant h.discriminator tag (h.variants.map (·.1))))
    | some className => readRecord C (← configured (C.shape className)) readers path

/-- Reads a JSON value that is no array and no object as a form without parts. -/
def readLeaf (C : Classes) (form : Leaf) (constraints : List Constraint) (path : String)
    (data : Json) : Except Failure Value :=
  match form with
  | .scalar type => do
    let v ← readScalar path type data
    if takesConstraints type then applyConstraints constraints v path else return v
  | .enumeration name =>
    match C.enumeration? name with
    | some e => readMember name e path data
    | none => .error (.fault (.unknownKey (quoted name)))
  | .record _ | .polymorphic _ => mismatch path .object data
  | .any => .ok (Value.ofJson data)

mutual

/-- The reader of a JSON value. -/
def read (C : Classes) : Json → ValueReader
  | .null => fun type path _ =>
    if type.nullable then .ok .null else .error (.refused (place path) .nullValue)
  | .array items =>
    let readers := itemReaders C items
    fun type path constraints =>
      match type with
      | .array container item _ notes => do
        contain C container
          (← readItems item path (constraints ++ constraintsIn notes) 0 readers)
      | .map .. => mismatch path .object (.array items)
      | .leaf form _ notes =>
        readLeaf C form (constraints ++ constraintsIn notes) path (.array items)
  | .object members =>
    let readers := memberReaders C members
    fun type path constraints =>
      match type with
      | .array .. => mismatch path .array (.object members)
      | .map item _ _ => do return .dict (← readEntries item path readers)
      | .leaf (.record name) _ _ => do
        readRecord C (← configured (C.shape name)) readers path
      | .leaf (.polymorphic base) _ _ => readVariant C base members readers path
      | .leaf form _ notes =>
        readLeaf C form (constraints ++ constraintsIn notes) path (.object members)
  | data => fun type path constraints =>
    match type with
    | .array .. => mismatch path .array data
    | .map .. => mismatch path .object data
    | .leaf form _ notes => readLeaf C form (constraints ++ constraintsIn notes) path data

/-- The readers of items. -/
def itemReaders (C : Classes) : List Json → List ValueReader
  | [] => []
  | item :: items => read C item :: itemReaders C items

/-- The readers of members, by key. -/
def memberReaders (C : Classes) : List (String × Json) → List (String × ValueReader)
  | [] => []
  | (key, value) :: members => (key, read C value) :: memberReaders C members

end

/-- Reads a JSON value as a type, at a path. -/
def readValue (C : Classes) (type : TypeInfo) (data : Json) (path : String) :
    Except Failure Value :=
  read C data type path []

/-- Decodes a payload as a hint. An absent or empty one is null where it is not required. -/
def decode (C : Classes) (room : Nat) (payload : Option Payload) (hint : Hint) (required : Bool) :
    Except Failure Value :=
  match payload.filter fun p => !p.isEmpty with
  | none => if required then .error (.refused none .bodyMissing) else .ok .null
  | some p =>
    match p.readJson room with
    | .error (.malformed why) => .error (.refused none (.malformedBody why))
    | .error (.tooNested form) => .error (.fault (.tooNested form))
    | .ok data => do
      let type ← configured (Classes.typed (C.resolve hint []))
      readValue C type data ""

mutual

/-- The hierarchies that reading a JSON value as a type may ask for. -/
def hierarchiesAsked (C : Classes) : Json → TypeInfo → List String
  | .array items =>
    let parts := itemAskers C items
    fun type => match type with
      | .array _ item _ _ => parts.flatMap fun ask => ask item
      | _ => []
  | .object members =>
    let parts := memberAskers C members
    let ofFields (className : String) : List String :=
      match C.shape className with
      | .error _ => []
      | .ok shape => shape.fields.flatMap fun f =>
        ((Table.get? f.wireName parts).map fun ask => ask f.type).getD []
    fun type => match type with
      | .map item _ _ => parts.flatMap fun (_, ask) => ask item
      | .leaf (.record name) _ _ => ofFields name
      | .leaf (.polymorphic base) _ _ =>
        base :: match C.hierarchy base with
          | .error _ => []
          | .ok h =>
            match Table.get? h.discriminator members with
            | some (.text name) => ((h.variant? name).map ofFields).getD []
            | _ => []
      | _ => []
  | _ => fun _ => []

/-- The same for items. -/
def itemAskers (C : Classes) : List Json → List (TypeInfo → List String)
  | [] => []
  | item :: items => hierarchiesAsked C item :: itemAskers C items

/-- The same for members, by key. -/
def memberAskers (C : Classes) : List (String × Json) → List (String × (TypeInfo → List String))
  | [] => []
  | (key, value) :: members => (key, hierarchiesAsked C value) :: memberAskers C members

end

/-- The hierarchies that decoding a payload may ask for. -/
def hierarchiesDecoded (C : Classes) (room : Nat) (payload : Option Payload) (hint : Hint) :
    List String :=
  match payload.map (Payload.readJson room), C.resolve hint [] with
  | some (.ok data), .ok type => hierarchiesAsked C data type
  | _, _ => []

end Body

end HttpContract
