import HttpContract.TypeInfo
import HttpContract.Pattern.Matcher
import HttpContract.Text.Case

/-!
# Constraints at work

What each constraint may be attached to, what it says in a schema, and what it does to a value.
Texts are reshaped before anything else is asked. The constraints of an array are those of its
items.
-/

namespace HttpContract

/-- The fault of using a text that is at fault as a regular expression. -/
def Fault.ofPattern (regex : String) (why : PatternFault) : Fault :=
  match why.problem with
  | .uncountable problem => .uncountable problem
  | _ => .badPattern (why.message regex.toList)

/-- Why a constraint with a text that is at fault cannot be attached. -/
def InvalidConstraint.ofPattern (owner regex : String) (why : PatternFault) : InvalidConstraint :=
  match why.problem with
  | .uncountable problem => .uncountable problem
  | _ => .badPattern owner (why.message regex.toList)

namespace Constraint

/-- Whether a constraint is about numbers; the others are about texts. -/
def isNumeric : Constraint → Bool
  | .min .. | .max .. | .clamp .. => true
  | _ => false

/-- Whether a constraint only reshapes texts. -/
def isTransform : Constraint → Bool
  | .trim | .lower | .upper => true
  | _ => false

/-- Whether a constraint may be attached to a type of the given form. -/
def admits (c : Constraint) : TypeInfo → Bool
  | .leaf (.scalar .text) _ _ => !c.isNumeric
  | .leaf (.scalar .integer) _ _ | .leaf (.scalar .number) _ _ => c.isNumeric
  | _ => false

/-- Refuses a constraint that cannot be attached to a type, or whose regular expression cannot be
read. `label` is what messages call the type it is written on. -/
def check (owner label : String) (type : TypeInfo) (c : Constraint) :
    Except InvalidConstraint Unit :=
  if c.admits type then
    match c with
    | .pattern regex _ =>
      match Pattern.fault? regex with
      | some why => .error (.ofPattern owner regex why)
      | none => .ok ()
    | _ => .ok ()
  else .error (.misplaced c.title owner label)

end Constraint

/-- Refuses the first of several constraints that cannot be attached to a type. -/
def checkEach (owner label : String) (type : TypeInfo) :
    List Constraint → Except InvalidConstraint Unit
  | [] => .ok ()
  | c :: rest => do
    c.check owner label type
    checkEach owner label type rest

/-- Refuses constraints that cannot be attached to a type. Those on an array are checked against
its items, and then the items' own are checked. -/
def checkConstraints (owner : String) (type : TypeInfo) (constraints : List Constraint) :
    Except InvalidConstraint Unit :=
  match type with
  | .array container item nullable notes => do
    checkEach owner (TypeInfo.array container item nullable notes).label item constraints
    checkConstraints owner item item.constraints
  | other => checkEach owner other.label other constraints

/-- The attributes of a schema that constraints set. -/
inductive ConstraintAttribute where
  | minimum
  | maximum
  | minLength
  | maxLength
  | pattern
  deriving DecidableEq, Repr

/-- The name of an attribute. -/
def ConstraintAttribute.name : ConstraintAttribute → String
  | .minimum => "minimum"
  | .maximum => "maximum"
  | .minLength => "min_length"
  | .maxLength => "max_length"
  | .pattern => "pattern"

/-- Attributes with values, in the order of their first setting. -/
abbrev ConstraintAttributes := Table ConstraintAttribute Json

/-- The attributes that one constraint sets. -/
def Constraint.attributes : Constraint → ConstraintAttributes
  | .min bound _ => [(.minimum, .number bound)]
  | .max bound _ => [(.maximum, .number bound)]
  | .clamp low high => [(.minimum, .number low), (.maximum, .number high)]
  | .minLength bound _ => [(.minLength, .int bound)]
  | .maxLength bound _ => [(.maxLength, .int bound)]
  | .length low high _ => [(.minLength, .int low), (.maxLength, .int high)]
  | .pattern regex _ => [(.pattern, .text regex)]
  | .trim | .lower | .upper => []

/-- The attributes that constraints set; a later setting replaces the value of an earlier one. -/
def schemaAttributes (constraints : List Constraint) : ConstraintAttributes :=
  (constraints.flatMap Constraint.attributes).foldl
    (fun attributes (key, value) => Table.set key value attributes) []

namespace Constraint

/-- A comparison of values without order. -/
def unordered (sign : String) (a b : String) : Failure :=
  .fault (.misuse s!"'{sign}' not supported between instances of '{a}' and '{b}'")

/-- The type name of a bound. -/
def boundType (n : Number) : String := (Value.number n).typeName

/-- The refusal with the constraint's own message, if it has one, or else the given one. -/
def worded (message : Option String) (why : Refusal) : Refusal :=
  match message with
  | some text => if text.isEmpty then why else .custom text
  | none => why

/-- The failure of a value that a constraint refuses. -/
def refuse (message : Option String) (field : String) (why : Refusal) : Failure :=
  .refused (some field) (worded message why)

/-- The number that a value counts as, or the fault of comparing it by a sign with a bound. -/
def numberOf (sign : String) (bound : Number) (valueFirst : Bool) (value : Value) :
    Except Failure Number :=
  match value.asNumber? with
  | some n => .ok n
  | none =>
    if valueFirst then .error (unordered sign value.typeName (boundType bound))
    else .error (unordered sign (boundType bound) value.typeName)

/-- The length of a text or of a collection. -/
def lengthOf (value : Value) : Except Failure Nat :=
  match value with
  | .text s => .ok s.length
  | .list items | .tuple items | .set _ items => .ok items.length
  | .dict entries => .ok entries.length
  | .bytes data => .ok data.length
  | .member _ _ .text (.text s) => .ok s.length
  | other => .error (.fault (.misuse s!"object of type '{other.typeName}' has no len()"))

/-- The text that a value counts as, or the fault of using it as one. -/
def textOf (operation : String) (value : Value) : Except Failure String :=
  match value.asText? with
  | some s => .ok s
  | none => .error (.fault (.noOperation value.typeName operation))

/-- A value moved to the nearest bound. The value itself stays when it lies between the bounds. -/
def clampValue (low high : Number) (value : Value) : Except Failure Value := do
  let n ← numberOf ">" low false value
  let raised := if n.less low then Value.number low else value
  let m := if n.less low then low else n
  return if high.less m then Value.number high else raised

/-- What a constraint does to a value of a field. -/
def apply (field : String) (c : Constraint) (value : Value) : Except Failure Value :=
  match c with
  | .min bound message => do
    let n ← numberOf "<" bound true value
    if n.less bound then throw (refuse message field (.belowMinimum bound)) else return value
  | .max bound message => do
    let n ← numberOf ">" bound true value
    if bound.less n then throw (refuse message field (.aboveMaximum bound)) else return value
  | .clamp low high => clampValue low high value
  | .minLength bound message => do
    let n ← lengthOf value
    if (n : Int) < bound then throw (refuse message field (.tooShort bound)) else return value
  | .maxLength bound message => do
    let n ← lengthOf value
    if bound < (n : Int) then throw (refuse message field (.tooLong bound)) else return value
  | .length low high message => do
    let n ← lengthOf value
    if low ≤ (n : Int) ∧ (n : Int) ≤ high then return value
    else throw (refuse message field (.lengthOutside low high))
  | .pattern regex message =>
    match Pattern.fault? regex with
    | some why => throw (.fault (.ofPattern regex why))
    | none =>
      match value.asText? with
      | none =>
        throw (.fault (.misuse
          s!"expected string or bytes-like object, got '{value.typeName}'"))
      | some s =>
        if matchesRegex regex s false then return value
        else throw (refuse message field (.noMatch regex))
  | .trim => do return .text (trimBlanks (← textOf "strip" value))
  | .lower => do return .text (lowerText (← textOf "lower" value))
  | .upper => do return .text (upperText (← textOf "upper" value))

/-- Whether a constraint can say why it refuses a value, as it refuses all for the same reason. -/
def isSayable : Constraint → Bool
  | .min bound message => (worded message (.belowMinimum bound)).isWritable
  | .max bound message => (worded message (.aboveMaximum bound)).isWritable
  | .minLength bound message => (worded message (.tooShort bound)).isWritable
  | .maxLength bound message => (worded message (.tooLong bound)).isWritable
  | .length low high message => (worded message (.lengthOutside low high)).isWritable
  | .clamp .. | .pattern .. | .trim | .lower | .upper => true

end Constraint

/-- What constraints do to a value, one after the other. -/
def applyInOrder (field : String) : List Constraint → Value → Except Failure Value
  | [], value => .ok value
  | c :: rest, value => do applyInOrder field rest (← c.apply field value)

/-- Constraints in a row do what the first of them do and then what the others do. -/
theorem applyInOrder_append (field : String) (first second : List Constraint) (value : Value) :
    applyInOrder field (first ++ second) value =
      (applyInOrder field first value).bind (applyInOrder field second) := by
  induction first generalizing value with
  | nil => rfl
  | cons c rest ih =>
    simp only [List.cons_append, applyInOrder, bind]
    cases c.apply field value with
    | error e => rfl
    | ok v => exact ih v

/-- What constraints do to a value: reshaping first, then everything else, each in order. -/
def applyConstraints (constraints : List Constraint) (value : Value) (field : String) :
    Except Failure Value :=
  applyInOrder field
    (constraints.filter Constraint.isTransform ++
      constraints.filter fun c => !c.isTransform) value

end HttpContract
