import HttpContract.Hint
import HttpContract.Value.Equality

/-!
# Described classes

Classes are data here: records and models with their fields, enumerations with their members, and
plain classes that only inherit. A class is described once, after its bases, and what it inherits
is worked out at that moment.
-/

namespace HttpContract

/-- What a field holds when no value is given: nothing, a value, or what a factory makes. A factory
makes one value when its class is declared, and another one, that need not equal the first, whenever
a record is made; it is taken to make equal ones for all records. -/
inductive FieldDefault where
  | required
  | value (value : Value)
  | made (declared fresh : Value)
  deriving Repr, Inhabited

namespace FieldDefault

/-- The default that a class is declared with. -/
def declared? : FieldDefault → Option Value
  | .required => none
  | .value v | .made v _ => some v

/-- What a record has for the field when it is made without a value for it. -/
def fresh? : FieldDefault → Option Value
  | .required => none
  | .value v | .made _ v => some v

/-- Whether values are made for the field, one after the other. -/
def isMade : FieldDefault → Bool
  | .made .. => true
  | _ => false

end FieldDefault

/-- A field as its author writes it. -/
structure FieldSpec where
  name : String
  hint : Hint
  default : FieldDefault
  /-- Whether the constructor takes a value for the field. -/
  settable : Bool := true
  /-- Whether the constructor takes the value by name only. -/
  byNameOnly : Bool := false
  options : Option FieldOptions := none
  deriving Repr, Inhabited

/-- A check that one attribute is less than another. -/
structure OrderCheck where
  lesser : String
  greater : String
  message : String
  deriving Repr

/-- A check that a model's field is not below a value. -/
structure FloorCheck where
  field : String
  minimum : Value
  message : String
  deriving Repr

/-- What a request body says about itself. -/
structure RequestNote where
  description : Option String := none
  required : Bool := true
  deriving Repr

/-- What a response says about itself. -/
structure ResponseNote where
  description : String := "OK"
  status : Int := 200
  deriving Repr

/-- What is noted on a class itself. Nothing of it is inherited. -/
structure ClassNotes where
  discriminator : Option String := none
  wireName : Option String := none
  schemaName : Option String := none
  paths : Option (List String) := none
  request : Option RequestNote := none
  response : Option ResponseNote := none
  deriving Repr

/-- An enumeration: the names given to values, in order. -/
structure Enumeration where
  mixin : EnumMixin
  names : List (String × Value)
  deriving Repr

namespace Enumeration

/-- The members: a name whose value equals an earlier one is no member of its own. -/
def members (e : Enumeration) : List (String × Value) :=
  e.names.foldl
    (fun kept (name, value) =>
      if kept.any fun (_, v) => v.same value then kept else kept ++ [(name, value)])
    []

/-- The member that a name stands for. -/
def find? (e : Enumeration) (name : String) : Option (String × Value) :=
  match Table.get? name e.names with
  | some value => e.members.find? fun (_, v) => v.same value
  | none => none

end Enumeration

/-- The kinds of classes. -/
inductive ClassBody where
  | record (frozen : Bool)
  | model (forbidsExtra : Bool) (checks : List FloorCheck)
  | plain
  | enumeration (members : Enumeration)
  deriving Repr

/-- A class as its author writes it. -/
structure ClassDef where
  name : String
  bases : List String := []
  body : ClassBody
  fields : List FieldSpec := []
  orderCheck : Option OrderCheck := none
  notes : ClassNotes := {}
  deriving Repr

/-- A class with what it inherits: its ancestors in the order of look-up, itself first, and all
its fields. -/
structure ClassEntry where
  definition : ClassDef
  ancestry : List String
  fields : List FieldSpec
  deriving Repr

/-- A polymorphic base class with its variants, by the names that clients use. -/
structure Hierarchy where
  base : String
  discriminator : String
  variants : Table String String
  deriving Repr, DecidableEq

/-- The variant of a name. -/
def Hierarchy.variant? (h : Hierarchy) (name : String) : Option String :=
  Table.get? name h.variants

/-- The name of a variant. -/
def Hierarchy.nameOf? (h : Hierarchy) (className : String) : Option String :=
  (h.variants.find? (·.2 = className)).map (·.1)

/-- All described classes in order, and the hierarchies settled by their first use. -/
structure Classes where
  entries : List ClassEntry := []
  settled : List Hierarchy := []
  deriving Repr

namespace Classes

/-- The class of a name. -/
def find? (C : Classes) (name : String) : Option ClassEntry :=
  C.entries.find? (·.definition.name = name)

/-- Whether a name is that of a class. -/
def isKnown (C : Classes) (name : String) : Bool := (C.find? name).isSome

/-- The ancestors of a class, itself first. -/
def ancestry (C : Classes) (name : String) : List String :=
  ((C.find? name).map (·.ancestry)).getD [name]

/-- The first head of the lists that stands in no tail. -/
def mergeHead? (lists : List (List String)) : Option String :=
  lists.findSome? fun
    | [] => none
    | head :: _ => if lists.any fun l => l.tail.contains head then none else some head

/-- The lists merged so that each keeps its order: the first head that stands in no tail comes
first. -/
def mergeAncestries (fuel : Nat) (lists : List (List String)) : List String :=
  match fuel with
  | 0 => []
  | fuel + 1 =>
    match mergeHead? lists with
    | none => []
    | some head =>
      head :: mergeAncestries fuel (lists.map fun l => if l.head? = some head then l.tail else l)

/-- The ancestors of a class with the given bases, itself excluded. -/
def ancestryOf (C : Classes) (bases : List String) : List String :=
  let lists := bases.map C.ancestry ++ [bases]
  mergeAncestries (lists.flatten.length + 1) lists

/-- Whether a class has an ancestor, possibly itself, with a body of some kind. -/
def hasBody (C : Classes) (p : ClassBody → Bool) (ancestors : List String) : Bool :=
  ancestors.any fun name => (C.find? name).any fun entry => p entry.definition.body

/-- A model, by its own description. -/
def isModelBody : ClassBody → Bool
  | .model .. => true
  | _ => false

/-- A record, by its own description. -/
def isRecordBody : ClassBody → Bool
  | .record _ => true
  | _ => false

/-- Whether a class is a model, perhaps by inheritance. -/
def isModel (C : Classes) (name : String) : Bool := C.hasBody isModelBody (C.ancestry name)

/-- Whether a class has fields: it is a record or a model, perhaps by inheritance. -/
def isRecord (C : Classes) (name : String) : Bool :=
  C.hasBody (fun body => isRecordBody body || isModelBody body) (C.ancestry name)

/-- The enumeration of a name. -/
def enumeration? (C : Classes) (name : String) : Option Enumeration :=
  (C.find? name).bind fun entry =>
    match entry.definition.body with
    | .enumeration e => some e
    | _ => none

/-- Whether a class is an enumeration. -/
def isEnumeration (C : Classes) (name : String) : Bool := (C.enumeration? name).isSome

/-- The discriminator that a class itself is marked with. -/
def discriminator? (C : Classes) (name : String) : Option String :=
  (C.find? name).bind (·.definition.notes.discriminator)

/-- Whether a class is marked as the base of variants. -/
def isPolymorphic (C : Classes) (name : String) : Bool := (C.discriminator? name).isSome

/-- The classes that name a class among their bases, in the order of their description. -/
def subclasses (C : Classes) (name : String) : List String :=
  (C.entries.filter fun entry => entry.definition.bases.contains name).map (·.definition.name)

/-- A name of a class for clients: the one it is marked with, or its own. An empty mark does not
count. -/
def markedName (mark : Option String) (name : String) : String :=
  match mark with
  | some marked => if marked.isEmpty then name else marked
  | none => name

/-- The name of a class as a variant. -/
def wireNameOf (C : Classes) (name : String) : String :=
  markedName ((C.find? name).bind (·.definition.notes.wireName)) name

/-- The name of a class among the schemas of a document. -/
def schemaNameOf (C : Classes) (name : String) : String :=
  markedName ((C.find? name).bind (·.definition.notes.schemaName)) name

/-- The fields with one set: in the place of the field of that name, or else at the end. -/
def setField (field : FieldSpec) : List FieldSpec → List FieldSpec
  | [] => [field]
  | f :: rest => if f.name = field.name then field :: rest else f :: setField field rest

/-- Several fields set one after the other. -/
def setFields (new fields : List FieldSpec) : List FieldSpec :=
  new.foldl (fun fields field => setField field fields) fields

/-- The fields of a described class. -/
def fieldsOf (C : Classes) (name : String) : List FieldSpec :=
  ((C.find? name).map (·.fields)).getD []

/-- What a described class has for a field when no value is given for it. -/
def defaultOf (C : Classes) (name field : String) : FieldDefault :=
  (((C.fieldsOf name).find? (·.name = field)).map (·.default)).getD .required

/-- The value that the nearest ancestor gives a field of a name by default. -/
def inheritedDefault (C : Classes) (ancestors : List String) (field : String) : FieldDefault :=
  (ancestors.findSome? fun name =>
    (C.find? name).bind fun entry =>
      if isRecordBody entry.definition.body then
        (entry.definition.fields.find? (·.name = field)).bind fun spec =>
          match spec.default with
          | .value v => some (.value v)
          | _ => none
      else none).getD .required

/-- The fields of a record: those of the ancestors, the farthest first, and its own in the place
of the ones they redefine. A field without a default of its own takes an inherited one. -/
def recordFields (C : Classes) (ancestors : List String) (own : List FieldSpec) :
    List FieldSpec :=
  let inherited :=
    ancestors.reverse.foldl (fun fields name => setFields (C.fieldsOf name) fields) []
  let completed := own.map fun field =>
    match field.default with
    | .required => { field with default := C.inheritedDefault ancestors field.name }
    | _ => field
  setFields completed inherited

/-- The fields of a model: names in the order in which ancestors, the farthest first, write them;
each as the class itself or else its first base that has it says. -/
def modelFields (C : Classes) (ancestors bases : List String) (own : List FieldSpec) :
    List FieldSpec :=
  let written := ancestors.reverse.flatMap fun name =>
    ((C.find? name).map (·.definition.fields)).getD []
  let names := ((written ++ own).map (·.name)).eraseDups
  names.filterMap fun name =>
    own.find? (·.name = name) <|>
      bases.findSome? fun base => (C.fieldsOf base).find? (·.name = name)

/-- The table with one more class. -/
def define (C : Classes) (definition : ClassDef) : Classes :=
  let ancestors := C.ancestryOf definition.bases
  let fields :=
    match definition.body with
    | .record _ => C.recordFields ancestors definition.fields
    | .model .. => C.modelFields ancestors definition.bases definition.fields
    | .plain =>
      if C.hasBody isModelBody ancestors then C.modelFields ancestors definition.bases []
      else ((ancestors.find? fun name => C.hasBody isRecordBody [name]).map C.fieldsOf).getD []
    | .enumeration _ => []
  { C with entries := C.entries ++ [⟨definition, definition.name :: ancestors, fields⟩] }

/-- Whether records of a class can be held by a set: the nearest record description among the
ancestors is frozen. -/
def isHashable (C : Classes) (name : String) : Bool :=
  ((C.ancestry name).findSome? fun ancestor =>
    (C.find? ancestor).bind fun entry =>
      match entry.definition.body with
      | .record frozen => some frozen
      | .model .. => some false
      | _ => none).getD true

/-- The check of order that records of a class must pass, by the nearest ancestor that has one. -/
def orderCheck? (C : Classes) (name : String) : Option OrderCheck :=
  (C.ancestry name).findSome? fun ancestor =>
    (C.find? ancestor).bind (·.definition.orderCheck)

/-- The checks of a model's fields, those of ancestors first. -/
def floorChecks (C : Classes) (name : String) : List FloorCheck :=
  (C.ancestry name).reverse.flatMap fun ancestor =>
    ((C.find? ancestor).map fun entry =>
      match entry.definition.body with
      | .model _ checks => checks
      | _ => []).getD []

/-- Whether a model refuses keys that name none of its fields. -/
def forbidsExtra (C : Classes) (name : String) : Bool :=
  (C.ancestry name).any fun ancestor =>
    (C.find? ancestor).any fun entry =>
      match entry.definition.body with
      | .model forbids _ => forbids
      | _ => false

end Classes

end HttpContract
