import HttpContract.Value.Display

/-!
# Notes on types

What may be attached to a type: where a parameter is read from, the name that clients use,
constraints, and the options of a model's field.
-/

namespace HttpContract

/-- The part of a request that a parameter is read from. -/
inductive Location where
  | path
  | query
  | header
  deriving DecidableEq, Repr, Inhabited

/-- The word for a location. -/
def Location.text : Location → String
  | .path => "path"
  | .query => "query"
  | .header => "header"

/-- Marks a field as a parameter of a request. -/
structure ParameterNote where
  location : Location
  description : String := ""
  deprecated : Bool := false
  allowEmpty : Bool := false
  deriving DecidableEq, Repr, Inhabited

/-- A rule for the values of a field: it rejects some values or reshapes them. A rule that rejects
may bring its own message. -/
inductive Constraint where
  | min (bound : Number) (message : Option String)
  | max (bound : Number) (message : Option String)
  | clamp (low high : Number)
  | minLength (bound : Int) (message : Option String)
  | maxLength (bound : Int) (message : Option String)
  | length (low high : Int) (message : Option String)
  | pattern (regex : String) (message : Option String)
  | trim
  | lower
  | upper
  deriving DecidableEq, Repr, Inhabited

/-- The options of a model's field that restrict or rename it. -/
structure FieldOptions where
  strict : Option Bool := none
  gt : Option Number := none
  ge : Option Number := none
  lt : Option Number := none
  le : Option Number := none
  multipleOf : Option Number := none
  minLength : Option Int := none
  maxLength : Option Int := none
  pattern : Option String := none
  /-- The pattern is matched by the rules for constraints, and not by those for models. -/
  compiled : Bool := false
  allowInfNan : Option Bool := none
  maxDigits : Option Int := none
  decimalPlaces : Option Int := none
  outerName : Option String := none
  deriving DecidableEq, Repr, Inhabited

/-- One rule that the options of a model's field stand for. The last gathers the rules without a
form of their own. -/
inductive FieldRule where
  | strict (value : Bool)
  | gt (bound : Number)
  | ge (bound : Number)
  | lt (bound : Number)
  | le (bound : Number)
  | multipleOf (bound : Number)
  | minLength (bound : Int)
  | maxLength (bound : Int)
  | general (pattern : Option (String × Bool)) (allowInfNan : Option Bool)
      (maxDigits decimalPlaces : Option Int)
  deriving DecidableEq, Repr, Inhabited

/-- Something attached to a type. What means nothing here is a remark: a text, like every note a
value that has a hash, so that types with notes can be looked up like those without. -/
inductive Note where
  | parameter (note : ParameterNote)
  | wireName (name : String)
  | constraint (rule : Constraint)
  | options (options : FieldOptions)
  | fieldRule (rule : FieldRule)
  | remark (text : String)
  deriving DecidableEq, Repr, Inhabited

/-- The rules that options stand for, in their fixed order. -/
def FieldOptions.rules (o : FieldOptions) : List FieldRule :=
  let general :=
    if o.pattern.isSome || o.allowInfNan.isSome || o.maxDigits.isSome || o.decimalPlaces.isSome then
      [FieldRule.general (o.pattern.map (·, o.compiled)) o.allowInfNan o.maxDigits o.decimalPlaces]
    else []
  (o.strict.map FieldRule.strict).toList ++ (o.gt.map FieldRule.gt).toList ++
    (o.ge.map FieldRule.ge).toList ++ (o.lt.map FieldRule.lt).toList ++
    (o.le.map FieldRule.le).toList ++ (o.multipleOf.map FieldRule.multipleOf).toList ++
    (o.minLength.map FieldRule.minLength).toList ++
    (o.maxLength.map FieldRule.maxLength).toList ++ general

/-- The notes that a note on a model's field stands for, options being replaced by the rules they
stand for. -/
def Note.expand : Note → List Note
  | .options o => o.rules.map .fieldRule
  | a => [a]

/-- The constraints among notes, in order. -/
def constraintsIn (notes : List Note) : List Constraint :=
  notes.filterMap fun
    | .constraint rule => some rule
    | _ => none

/-- The locations among notes, in order. -/
def parametersIn (notes : List Note) : List ParameterNote :=
  notes.filterMap fun
    | .parameter note => some note
    | _ => none

/-- The names for clients among notes, in order. -/
def wireNamesIn (notes : List Note) : List String :=
  notes.filterMap fun
    | .wireName name => some name
    | _ => none

namespace Constraint

/-- The word by which messages call a constraint. -/
def title : Constraint → String
  | .min .. => "Min"
  | .max .. => "Max"
  | .clamp .. => "Clamp"
  | .minLength .. => "MinLength"
  | .maxLength .. => "MaxLength"
  | .length .. => "Length"
  | .pattern .. => "Pattern"
  | .trim => "Trim"
  | .lower => "LowerCase"
  | .upper => "UpperCase"

end Constraint

/-- A call as messages show it: a title and named arguments. -/
def callText (title : String) (arguments : List (String × String)) : String :=
  title ++ "(" ++ commaList (arguments.map fun (n, v) => n ++ "=" ++ v) ++ ")"

/-- A message that may be missing, as messages show it. -/
def optionText (text : Option String) : String := (text.map quoted).getD "None"

/-- A constraint as messages show it. Its bounds are taken to be numbers that can be written. -/
def Constraint.display (c : Constraint) : String :=
  callText c.title <| match c with
    | .min bound message | .max bound message =>
      [("value", bound.toText), ("message", optionText message)]
    | .clamp low high => [("minimum", low.toText), ("maximum", high.toText)]
    | .minLength bound message | .maxLength bound message =>
      [("value", toString bound), ("message", optionText message)]
    | .length low high message =>
      [("min_length", toString low), ("max_length", toString high),
        ("message", optionText message)]
    | .pattern regex message => [("regex", quoted regex), ("message", optionText message)]
    | .trim | .lower | .upper => []

/-- A rule of a model's field as messages show it. -/
def FieldRule.display : FieldRule → String
  | .strict value => callText "Strict" [("strict", boolText value)]
  | .gt bound => callText "Gt" [("gt", bound.toText)]
  | .ge bound => callText "Ge" [("ge", bound.toText)]
  | .lt bound => callText "Lt" [("lt", bound.toText)]
  | .le bound => callText "Le" [("le", bound.toText)]
  | .multipleOf bound => callText "MultipleOf" [("multiple_of", bound.toText)]
  | .minLength bound => callText "MinLen" [("min_length", toString bound)]
  | .maxLength bound => callText "MaxLen" [("max_length", toString bound)]
  | .general pattern allowInfNan maxDigits decimalPlaces =>
    let patternText : Option String := pattern.map fun (regex, compiled) =>
      if compiled then "re.compile(" ++ quoted regex ++ ")" else quoted regex
    callText "_PydanticGeneralMetadata" <|
      (patternText.map (("pattern", ·))).toList ++
        (allowInfNan.map fun b => ("allow_inf_nan", boolText b)).toList ++
        (maxDigits.map fun n => ("max_digits", toString n)).toList ++
        (decimalPlaces.map fun n => ("decimal_places", toString n)).toList

/-- A note as messages show it. -/
def Note.display : Note → String
  | .parameter note =>
    let title := match note.location with
      | .path => "PathParam"
      | .query => "QueryParam"
      | .header => "HeaderParam"
    callText title
      [("description", quoted note.description), ("deprecated", boolText note.deprecated),
        ("allow_empty", boolText note.allowEmpty)]
  | .wireName name => callText "WireName" [("name", quoted name)]
  | .constraint rule => rule.display
  | .fieldRule rule => rule.display
  | .remark text => quoted text
  | .options o =>
    let required := [("annotation", "NoneType"), ("required", "True")]
    let otherName := (o.outerName.map fun a => ("alias", quoted a)).toList ++
      (o.outerName.map fun _ => ("alias_priority", "2")).toList
    let rules := if o.rules.isEmpty then []
      else [("metadata", "[" ++ commaList (o.rules.map FieldRule.display) ++ "]")]
    callText "FieldInfo" (required ++ otherName ++ rules)

end HttpContract
