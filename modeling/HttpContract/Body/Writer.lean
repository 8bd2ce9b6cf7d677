import HttpContract.Body.Reader
import HttpContract.Json.Writer

/-!
# Writing bodies

A value is turned into a JSON value: records by the names that clients use, variants with their
discriminator in front, members of enumerations by their values. Some values have no JSON form.
-/

namespace HttpContract

namespace Body

/-- The members of a record's object: the discriminator of a variant, then its fields. -/
def recordMembers (C : Classes) (className : String)
    (attributes : List (String × Except Failure Json)) :
    Except Failure (List (String × Json)) := do
  let parent ← configured (C.parent className)
  let start : List (String × Json) := match parent with
    | none => []
    | some h => [(h.discriminator, .text ((h.nameOf? className).getD className))]
  let shape ← configured (C.shape className)
  shape.fields.foldlM
    (fun members f =>
      match Table.get? f.name attributes with
      | some written => do return Table.set f.wireName (← written) members
      | none => .error (.fault (.noOperation className f.name)))
    start

/-- The key that a key of a dictionary becomes. -/
def keyText (key : Value) : Except Failure String :=
  if key.hasText then .ok key.plainText else .error (.fault .tooManyDigits)

mutual

/-- The JSON form of a value. -/
def toJson (C : Classes) : Value → Except Failure Json
  | .null => .ok .null
  | .bool b => .ok (.bool b)
  | .number n => .ok (.number n)
  | .text s => .ok (.text s)
  | .list items | .tuple items | .set _ items => do return .array (← itemsToJson C items)
  | .dict entries => do return .object (← entriesToJson C entries [])
  | .uuid u => .ok (.text u.toText)
  | .date d => .ok (.text d.toText)
  | .dateTime t => .ok (.text t.toText)
  | .member _ _ _ value => toJson C value
  | .record className attributes => do
    return .object (← recordMembers C className (attributesToJson C attributes))
  | .decimal _ => .error (.fault (.notSerializable "Decimal"))
  | .bytes _ => .error (.fault (.notSerializable "bytes"))
  | .opaqueObject => .error (.fault (.notSerializable "object"))

/-- The JSON forms of items. -/
def itemsToJson (C : Classes) : List Value → Except Failure (List Json)
  | [] => .ok []
  | v :: vs => do
    let j ← toJson C v
    return j :: (← itemsToJson C vs)

/-- The members that entries become, added to those before; keys become texts, and a later entry
replaces an earlier one of the same text. -/
def entriesToJson (C : Classes) :
    List (Value × Value) → List (String × Json) → Except Failure (List (String × Json))
  | [], members => .ok members
  | (k, v) :: rest, members => do
    let key ← keyText k
    let j ← toJson C v
    entriesToJson C rest (Table.set key j members)

/-- The JSON form of each attribute, by name. -/
def attributesToJson (C : Classes) :
    List (String × Value) → List (String × Except Failure Json)
  | [] => []
  | (n, v) :: rest => (n, toJson C v) :: attributesToJson C rest

end

/-- The text of a value as a body. -/
def encode (C : Classes) (v : Value) : Except Failure String := do
  let j ← toJson C v
  if j.isWritable then return j.toBodyText else throw (.fault .tooManyDigits)

mutual

/-- The hierarchies that writing a value may ask for. -/
def hierarchiesWritten (C : Classes) : Value → List String
  | .list items | .tuple items | .set _ items => hierarchiesOfItems C items
  | .dict entries => hierarchiesOfEntries C entries
  | .member _ _ _ value => hierarchiesWritten C value
  | .record className attributes =>
    C.parentsAsked className ++ hierarchiesOfAttributes C attributes
  | _ => []

/-- The same for items. -/
def hierarchiesOfItems (C : Classes) : List Value → List String
  | [] => []
  | v :: vs => hierarchiesWritten C v ++ hierarchiesOfItems C vs

/-- The same for the values of entries. -/
def hierarchiesOfEntries (C : Classes) : List (Value × Value) → List String
  | [] => []
  | (_, v) :: rest => hierarchiesWritten C v ++ hierarchiesOfEntries C rest

/-- The same for attributes. -/
def hierarchiesOfAttributes (C : Classes) : List (String × Value) → List String
  | [] => []
  | (_, v) :: rest => hierarchiesWritten C v ++ hierarchiesOfAttributes C rest

end

end Body

end HttpContract
