import HttpContract.Classes
import HttpContract.Failure

/-!
# Resolved types

A hint resolved to one of a closed set of forms. Schemas, bodies and parameters are all read off
the resolved form, so they cannot disagree about what a hint means.
-/

namespace HttpContract

/-- The scalar types. -/
inductive Scalar where
  | text
  | integer
  | number
  | boolean
  | uuid
  | date
  | dateTime
  deriving DecidableEq, Repr, Inhabited

/-- The forms without parts of their own. -/
inductive Leaf where
  | scalar (type : Scalar)
  | enumeration (name : String)
  | record (name : String)
  | polymorphic (name : String)
  | any
  deriving DecidableEq, Repr, Inhabited

/-- What an array is read into. -/
inductive Container where
  | list
  | tuple
  | set
  | frozenset
  deriving DecidableEq, Repr, Inhabited

/-- A resolved type: its form, whether null is allowed, and the notes on it. The notes on the
items of an array are the item type's own. -/
inductive TypeInfo where
  | leaf (form : Leaf) (nullable : Bool) (notes : List Note)
  | array (container : Container) (item : TypeInfo) (nullable : Bool) (notes : List Note)
  | map (item : TypeInfo) (nullable : Bool) (notes : List Note)
  deriving DecidableEq, Repr, Inhabited

namespace TypeInfo

/-- Whether null is allowed. -/
def nullable : TypeInfo → Bool
  | .leaf _ n _ | .array _ _ n _ | .map _ n _ => n

/-- The notes on a type. -/
def notes : TypeInfo → List Note
  | .leaf _ _ m | .array _ _ _ m | .map _ _ m => m

/-- The constraints among the notes. -/
def constraints (t : TypeInfo) : List Constraint := constraintsIn t.notes

/-- The type of items of an array or of values of a map. -/
def item? : TypeInfo → Option TypeInfo
  | .leaf .. => none
  | .array _ item _ _ | .map item _ _ => some item

/-- The type with null allowed or not. -/
def withNullable (nullable : Bool) : TypeInfo → TypeInfo
  | .leaf form _ notes => .leaf form nullable notes
  | .array container item _ notes => .array container item nullable notes
  | .map item _ notes => .map item nullable notes

end TypeInfo

/-- The name of a scalar type. -/
def Scalar.label : Scalar → String
  | .text => "str"
  | .integer => "int"
  | .number => "float"
  | .boolean => "bool"
  | .uuid => "UUID"
  | .date => "date"
  | .dateTime => "datetime"

/-- The word for the kind of a scalar type. -/
def Scalar.kind : Scalar → String
  | .text => "string"
  | .integer => "integer"
  | .number => "number"
  | .boolean => "boolean"
  | .uuid => "uuid"
  | .date => "date"
  | .dateTime => "date-time"

/-- The name of a form. -/
def Leaf.label : Leaf → String
  | .scalar s => s.label
  | .enumeration name | .record name | .polymorphic name => name
  | .any => "Any"

/-- The word for the kind of a form. -/
def Leaf.kind : Leaf → String
  | .scalar s => s.kind
  | .enumeration _ => "enum"
  | .record _ => "record"
  | .polymorphic _ => "polymorphic"
  | .any => "any"

/-- The name of a container. -/
def Container.label : Container → String
  | .list => "list"
  | .tuple => "tuple"
  | .set => "set"
  | .frozenset => "frozenset"

namespace TypeInfo

/-- The word for the kind of a type. -/
def kind : TypeInfo → String
  | .leaf form _ _ => form.kind
  | .array .. => "array"
  | .map .. => "map"

/-- What messages call a type. -/
def label : TypeInfo → String
  | .leaf form _ _ => form.label
  | .array _ item _ _ => "array<" ++ item.label ++ ">"
  | .map item _ _ => "map<" ++ item.label ++ ">"

/-- The name of the class or container that values of a type have. -/
def target : TypeInfo → String
  | .leaf form _ _ => form.label
  | .array container _ _ _ => container.label
  | .map .. => "dict"

end TypeInfo

/-- The scalar form of a built-in type, if it has one. -/
def Builtin.scalar? : Builtin → Option Scalar
  | .text => some .text
  | .integer => some .integer
  | .number => some .number
  | .boolean => some .boolean
  | .uuid => some .uuid
  | .date => some .date
  | .dateTime => some .dateTime
  | .bytes | .complex | .object | .decimal => none

/-- The container that items of a collection are read into. -/
def Collection.container : Collection → Container
  | .list | .sequence => .list
  | .set | .abstractSet => .set
  | .frozenset => .frozenset
  | .tuple => .tuple

namespace Classes

/-- The form of a class, if it has one. -/
def leaf? (C : Classes) (name : String) : Option Leaf :=
  if C.isEnumeration name then some (.enumeration name)
  else if C.isPolymorphic name then some (.polymorphic name)
  else if C.isRecord name then some (.record name)
  else none

/-- A hint that stands alone, as messages show it. -/
def hintText (C : Classes) (h : Hint) : String := h.display C.isKnown C.isEnumeration

mutual

/-- Resolves a normal hint. `before` holds the notes collected outside, `after` those of the
notes directly around the hint, and `outer` tells whether a union may still be unwrapped. -/
def resolveWithin (C : Classes) (outer nullable : Bool) (before after : List Note) (hint : Hint) :
    Except UnsupportedType TypeInfo :=
  match hint with
  | .annotated base notes => resolveWithin C outer nullable before (notes ++ after) base
  | .union bars members =>
    if outer then
      let others := members.filter (· != .noneType)
      if others.length = 1 then
        resolveOnly C (others.length != members.length) (before ++ after) members
      else .error (.union (C.hintText (.union bars members)))
    else .error (.unknownForm (C.hintText (.union bars members)))
  | .any => .ok (.leaf .any nullable (before ++ after))
  | .builtin type =>
    match type.scalar? with
    | some s => .ok (.leaf (.scalar s) nullable (before ++ after))
    | none => .error (.unknownForm (C.hintText hint))
  | .named name =>
    match C.leaf? name with
    | some form => .ok (.leaf form nullable (before ++ after))
    | none => .error (.unknownForm (C.hintText hint))
  | .bareCollection .tuple => .error (.mixedTuple (C.hintText hint))
  | .bareCollection type =>
    .ok (.array type.container (.leaf .any false []) nullable (before ++ after))
  | .bareMapping _ => .ok (.map (.leaf .any false []) nullable (before ++ after))
  | .collection type item =>
    (resolveWithin C true false [] [] item).map
      (.array type.container · nullable (before ++ after))
  | .fixedTuple items => .error (.mixedTuple (C.hintText (.fixedTuple items)))
  | .mapping type key value =>
    match key with
    | .builtin .text =>
      (resolveWithin C true false [] [] value).map (.map · nullable (before ++ after))
    | _ => .error (.keyType (C.hintText (.mapping type key value)))
  | .none | .noneType | .forward _ => .error (.unknownForm (C.hintText hint))

/-- Resolves the only member of a union that is not the type of the null value. -/
def resolveOnly (C : Classes) (nullable : Bool) (before : List Note) (members : List Hint) :
    Except UnsupportedType TypeInfo :=
  match members with
  | [] => .error (.unknownForm (C.hintText .noneType))
  | .noneType :: rest => resolveOnly C nullable before rest
  | member :: _ => resolveWithin C false nullable before [] member

end

/-- Resolves a hint. Notes given from outside come first, then those around the hint, then those
of the only member of a union with the type of the null value. -/
def resolve (C : Classes) (hint : Hint) (notes : List Note) : Except UnsupportedType TypeInfo :=
  C.resolveWithin true false notes [] (hint.normal C.isKnown)

end Classes

end HttpContract
