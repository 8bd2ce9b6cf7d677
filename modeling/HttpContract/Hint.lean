import HttpContract.Note

/-!
# Types as they are written

A hint is the type of a field, a parameter or a body as its author writes it: classes by name,
collections, unions and notes in any nesting. `Hint.normal` gives the form that messages show.
-/

namespace HttpContract

/-- The types that are built in. The last four have no JSON form. -/
inductive Builtin where
  | text
  | integer
  | number
  | boolean
  | uuid
  | date
  | dateTime
  | bytes
  | complex
  | object
  | decimal
  deriving DecidableEq, Repr, Inhabited

/-- Collections of items. The last two are the abstract kinds of lists and of sets. -/
inductive Collection where
  | list
  | set
  | frozenset
  | tuple
  | sequence
  | abstractSet
  deriving DecidableEq, Repr, Inhabited

/-- Collections of keys with values, the second being the abstract kind. -/
inductive MappingType where
  | dict
  | mapping
  deriving DecidableEq, Repr, Inhabited

/-- A type as it is written. A union is written with bars or in brackets; `noneType` is the type
of the null value inside a union, `none` the null value standing alone. A name is a class, or a
forward reference where no class of that name is known; a forward reference is a name and no other
expression. -/
inductive Hint where
  | builtin (type : Builtin)
  | any
  | none
  | noneType
  | bareCollection (type : Collection)
  | bareMapping (type : MappingType)
  | named (name : String)
  | forward (name : String)
  | collection (type : Collection) (item : Hint)
  | fixedTuple (items : List Hint)
  | mapping (type : MappingType) (key value : Hint)
  | union (bars : Bool) (members : List Hint)
  | annotated (base : Hint) (notes : List Note)
  deriving Repr, Inhabited

namespace Hint

mutual

/-- Whether two hints are written alike. -/
def same : Hint → Hint → Bool
  | .builtin a, .builtin b => a == b
  | .any, .any | .none, .none | .noneType, .noneType => true
  | .bareCollection a, .bareCollection b => a == b
  | .bareMapping a, .bareMapping b => a == b
  | .named a, .named b | .forward a, .forward b => a == b
  | .collection type a, .collection other b => type == other && same a b
  | .fixedTuple first, .fixedTuple second => sameAll first second
  | .mapping type key value, .mapping other key' value' =>
    type == other && same key key' && same value value'
  | .union bars first, .union bars' second => bars == bars' && sameAll first second
  | .annotated a notes, .annotated b notes' => same a b && notes == notes'
  | _, _ => false

/-- Whether several hints are written alike, one by one. -/
def sameAll : List Hint → List Hint → Bool
  | [], [] => true
  | a :: first, b :: second => same a b && sameAll first second
  | _, _ => false

end

instance : BEq Hint := ⟨same⟩

/-- The members that a hint contributes to a union. -/
def unionMembers : Hint → List Hint
  | .union _ members => members
  | .none => [.noneType]
  | h => [h]

/-- The list without the elements that equal an earlier one. -/
def distinct (hints : List Hint) : List Hint :=
  hints.foldl (fun kept h => if kept.contains h then kept else kept ++ [h]) []

/-- Whether a union that a hint takes part in is shown in brackets, however it is written. -/
def forcesBrackets : Hint → Bool
  | .annotated .. => true
  | .union bars _ => !bars
  | .forward _ => true
  | _ => false

/-- The union of normal hints: nested unions are spliced in, repeated members dropped, and a
single member stands alone. -/
def unionOf (bars : Bool) (hints : List Hint) : Hint :=
  match distinct (hints.flatMap unionMembers) with
  | [h] => h
  | members => .union (bars && !hints.any forcesBrackets) members

/-- A forward reference as it stands inside a union in brackets or below notes. -/
def asReference (known : String → Bool) : Hint → Hint
  | .named name => if known name then .named name else .forward name
  | h => h

mutual

/-- The normal form of a hint, `known` telling the names of classes. -/
def normal (known : String → Bool) : Hint → Hint
  | .collection type item => .collection type (normal known item)
  | .fixedTuple items => .fixedTuple (normalAll known items)
  | .mapping type key value => .mapping type (normal known key) (normal known value)
  | .union bars members => unionOf bars ((normalAll known members).map (asReference known))
  | .annotated base notes =>
    match normal known base with
    | .annotated inner first => .annotated inner (first ++ notes)
    | .none => .annotated .noneType notes
    | h => .annotated (asReference known h) notes
  | h => h

/-- The normal forms of several hints. -/
def normalAll (known : String → Bool) : List Hint → List Hint
  | [] => []
  | h :: hs => normal known h :: normalAll known hs

end

end Hint

/-- The name by which messages call a built-in type. -/
def Builtin.path : Builtin → String
  | .text => "str"
  | .integer => "int"
  | .number => "float"
  | .boolean => "bool"
  | .uuid => "uuid.UUID"
  | .date => "datetime.date"
  | .dateTime => "datetime.datetime"
  | .bytes => "bytes"
  | .complex => "complex"
  | .object => "object"
  | .decimal => "decimal.Decimal"

/-- The name by which messages call a collection. -/
def Collection.path : Collection → String
  | .list => "list"
  | .set => "set"
  | .frozenset => "frozenset"
  | .tuple => "tuple"
  | .sequence => "collections.abc.Sequence"
  | .abstractSet => "collections.abc.Set"

/-- The name by which messages call a mapping. -/
def MappingType.path : MappingType → String
  | .dict => "dict"
  | .mapping => "collections.abc.Mapping"

/-- The module that messages place all described classes in. -/
def classPath (name : String) : String := "app." ++ name

namespace Hint

/-- A name with arguments in brackets. -/
def bracketed (name : String) (arguments : List String) : String :=
  name ++ "[" ++ commaList arguments ++ "]"

mutual

/-- A hint as an argument of another one. -/
def argumentText (known : String → Bool) : Hint → String
  | .builtin type => type.path
  | .any => "typing.Any"
  | .none => "None"
  | .noneType => "NoneType"
  | .bareCollection type => type.path
  | .bareMapping type => type.path
  | .named name => if known name then classPath name else quoted name
  | .forward name => "ForwardRef(" ++ quoted name ++ ")"
  | .collection .tuple item => bracketed "tuple" [argumentText known item, "..."]
  | .collection type item => bracketed type.path [argumentText known item]
  | .fixedTuple [] => "tuple[()]"
  | .fixedTuple (item :: items) =>
    bracketed "tuple" (argumentText known item :: argumentTexts known items)
  | .mapping type key value =>
    bracketed type.path [argumentText known key, argumentText known value]
  | .union true members => joinTexts " | " (barTexts known members)
  | .union false [.noneType, h] | .union false [h, .noneType] =>
    bracketed "typing.Optional" [argumentText known h]
  | .union false members => bracketed "typing.Union" (argumentTexts known members)
  | .annotated base notes =>
    bracketed "typing.Annotated" (argumentText known base :: notes.map Note.display)

/-- Several hints as arguments. -/
def argumentTexts (known : String → Bool) : List Hint → List String
  | [] => []
  | h :: hs => argumentText known h :: argumentTexts known hs

/-- Several hints between bars, the type of the null value shown as the null value. -/
def barTexts (known : String → Bool) : List Hint → List String
  | [] => []
  | .noneType :: hs => "None" :: barTexts known hs
  | h :: hs => argumentText known h :: barTexts known hs

end

/-- A hint that stands alone, as messages show it. `isEnumeration` tells the classes that are
enumerations. -/
def display (known isEnumeration : String → Bool) (h : Hint) : String :=
  match h with
  | .builtin type => "<class '" ++ type.path ++ "'>"
  | .noneType => "<class 'NoneType'>"
  | .bareCollection type => "<class '" ++ type.path ++ "'>"
  | .bareMapping type => "<class '" ++ type.path ++ "'>"
  | .named name =>
    if isEnumeration name then "<enum '" ++ name ++ "'>"
    else if known name then "<class '" ++ classPath name ++ "'>"
    else quoted name
  | h => argumentText known h

/-- The name of a type that stands alone, without the module it is in. -/
def typeName : Hint → String
  | .named name | .forward name => name
  | .builtin .uuid => "UUID"
  | .builtin .date => "date"
  | .builtin .dateTime => "datetime"
  | .builtin .decimal => "Decimal"
  | .builtin type => type.path
  | .bareCollection .sequence => "Sequence"
  | .bareCollection .abstractSet => "Set"
  | .bareCollection type => type.path
  | .bareMapping .dict => "dict"
  | .bareMapping .mapping => "Mapping"
  | .noneType => "NoneType"
  | _ => ""

/-- The names that a hint mentions, in the order they are written. -/
def names : Hint → List String
  | .named name | .forward name => [name]
  | .collection _ item => item.names
  | .fixedTuple items | .union _ items => namesOfAll items
  | .mapping _ key value => key.names ++ value.names
  | .annotated base _ => base.names
  | _ => []
where
  /-- The names that several hints mention. -/
  namesOfAll : List Hint → List String
    | [] => []
    | h :: hs => h.names ++ namesOfAll hs

end Hint

end HttpContract
