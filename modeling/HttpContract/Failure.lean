import HttpContract.Json.Reader
import HttpContract.Note
import HttpContract.Pattern.Fault

/-!
# Failures

Every way in which an operation of the library fails, as a cause with one wording. Binding errors
are the client's, configuration errors those of whoever registers routes, routing errors tell
that nothing serves a request, and faults are none of these.
-/

namespace HttpContract

/-- What a JSON value should have been. -/
inductive Expected where
  | object
  | text
  | integer
  | number
  | finiteNumber
  | boolean
  | array
  | uuid
  | date
  | dateTime
  deriving DecidableEq, Repr

/-- The wording of an expectation. -/
def Expected.wording : Expected → String
  | .object => "an object"
  | .text => "a string"
  | .integer => "an integer"
  | .number => "a number"
  | .finiteNumber => "a finite number"
  | .boolean => "a boolean"
  | .array => "an array"
  | .uuid => "a UUID"
  | .date => "an ISO 8601 date"
  | .dateTime => "an ISO 8601 date-time"

/-- Why a value that is present is refused. -/
inductive Refusal where
  | custom (message : String)
  | belowMinimum (bound : Number)
  | aboveMaximum (bound : Number)
  | tooShort (bound : Int)
  | tooLong (bound : Int)
  | lengthOutside (low high : Int)
  | noMatch (regex : String)
  | empty
  | unreadable (text : String)
  | bodyMissing
  | malformedBody (why : String)
  | nullValue
  | mismatch (expected : Expected) (found : String)
  | unreadableAs (expected : Expected)
  | notListed (listed : List Value)
  | noVariantNamed
  | unknownVariant (discriminator : String) (found : Json) (names : List String)
  | byModel (why : String)
  deriving Repr

namespace Refusal

/-- The wording of a refusal; `field` is the place of the value, none for the whole body. -/
def message (field : Option String) : Refusal → String
  | .custom message => message
  | .belowMinimum bound => s!"{field.getD unnamed} must be at least {bound.toText}"
  | .aboveMaximum bound => s!"{field.getD unnamed} must be at most {bound.toText}"
  | .tooShort bound => s!"{field.getD unnamed} must be at least {bound} characters long"
  | .tooLong bound => s!"{field.getD unnamed} must be at most {bound} characters long"
  | .lengthOutside low high =>
    s!"{field.getD unnamed} must be between {low} and {high} characters long"
  | .noMatch regex => s!"{field.getD unnamed} must match pattern {regex}"
  | .empty => s!"{field.getD unnamed} must not be empty"
  | .unreadable text => s!"Invalid value for {field.getD unnamed}: {quoted text}"
  | .bodyMissing => "Request body is required"
  | .malformedBody why => s!"Malformed JSON body: {why}"
  | .nullValue => s!"{field.getD wholeBody} must not be null"
  | .mismatch expected found => s!"{field.getD wholeBody} must be {expected.wording}, got {found}"
  | .unreadableAs expected => s!"{field.getD wholeBody} must be {expected.wording}"
  | .notListed listed => s!"{field.getD wholeBody} must be one of {(Value.list listed).display}"
  | .noVariantNamed => s!"{field.getD unnamed} is required to select a variant"
  | .unknownVariant discriminator found names =>
    s!"Unknown {discriminator} {found.display}, expected one of {textList names}"
  | .byModel why => s!"Invalid value for {field.getD unnamed}: {why}"
where
  /-- How the whole body is called. -/
  wholeBody : String := "body"
  /-- How a missing place is called. -/
  unnamed : String := "None"

/-- Whether a refusal can be worded: whether all integers that the wording shows can be written. -/
def isWritable : Refusal → Bool
  | .belowMinimum bound | .aboveMaximum bound => bound.isWritable
  | .tooShort bound | .tooLong bound => (Number.int bound).isWritable
  | .lengthOutside low high => (Number.int low).isWritable && (Number.int high).isWritable
  | .notListed listed => (Value.list listed).isWritable
  | .unknownVariant _ found _ => found.isWritable
  | .custom _ | .noMatch _ | .empty | .unreadable _ | .bodyMissing | .malformedBody _ | .nullValue
  | .mismatch .. | .unreadableAs _ | .noVariantNamed | .byModel _ => true

end Refusal

/-- A failure that is the client's: a field without a value, or with one that is refused. -/
inductive BindingError where
  | missing (field : String)
  | refused (field : Option String) (why : Refusal)
  deriving Repr

namespace BindingError

/-- The place that the failure is about. -/
def field : BindingError → Option String
  | .missing field => some field
  | .refused field _ => field

/-- The wording of the failure. -/
def message : BindingError → String
  | .missing field => s!"The field {field} is required"
  | .refused field why => why.message field

/-- The code of the failure. -/
def code : BindingError → String
  | .missing _ => "REQUIRED_FIELD_MISSING"
  | .refused .. => "VALIDATION_FAILED"

/-- What the failure adds for programs: the place, when it has a name. -/
def details (e : BindingError) : Option (List (String × Json)) :=
  match e.field with
  | none => none
  | some field => if field.isEmpty then none else some [("field", .text field)]

end BindingError

/-- Why a type cannot be modelled. Hints are given as messages show them. -/
inductive UnsupportedType where
  | union (hint : String)
  | mixedTuple (hint : String)
  | keyType (hint : String)
  | unknownForm (hint : String)
  | noRecord (hint : String)
  | unresolvedName (className name : String)
  | notPolymorphic (className : String)
  | noVariants (className : String)
  | variantNoRecord (hint base : String)
  | defaultWithoutForm (field why : String)
  | notBindable (field label : String) (location : Location)
  | nestedRecord (field className : String)
  deriving Repr

namespace UnsupportedType

/-- The wording of the cause. -/
def message : UnsupportedType → String
  | .union hint => s!"Union types are not supported: {hint}"
  | .mixedTuple hint => s!"Only homogeneous tuples (tuple[T, ...]) are supported: {hint}"
  | .keyType hint => s!"Mapping keys must be str: {hint}"
  | .unknownForm hint => s!"Cannot model type {hint}"
  | .noRecord hint => s!"{hint} is not a dataclass or pydantic model"
  | .unresolvedName className name =>
    s!"Cannot resolve type hints of {className}: name {quoted name} is not defined"
  | .notPolymorphic className => s!"{className} is not marked @polymorphic"
  | .noVariants className => s!"Polymorphic type {className} has no variants"
  | .variantNoRecord hint base =>
    s!"Variant {hint} of {base} is not a dataclass or pydantic model"
  | .defaultWithoutForm field why =>
    s!"Default of field {quoted field} cannot be documented: {why}"
  | .notBindable field label location =>
    s!"Field {quoted field} of type {label} cannot be bound from the {location.text}"
  | .nestedRecord field className =>
    s!"Field {quoted field} of {className} nests a record inside a deepObject parameter"

end UnsupportedType

/-- Everything that goes wrong without being anyone's error in the sense of the library. -/
inductive Fault where
  /-- A value that a set or a dictionary cannot hold. -/
  | unhashable (type : String)
  /-- A value without JSON form. -/
  | notSerializable (type : String)
  /-- An integer that no double is near to. -/
  | integerTooLarge
  /-- A check of a record that its attributes do not pass. -/
  | checkFailed (message : String)
  /-- A name that is not known. -/
  | unknownKey (key : String)
  /-- A construction with the wrong arguments, or a comparison of values without order. -/
  | misuse (message : String)
  /-- A text operation on a value that is no text. -/
  | noOperation (type operation : String)
  /-- A regular expression that cannot be read, met only when it is used. -/
  | badPattern (why : String)
  /-- A regular expression that repeats a part more often than can be counted. -/
  | uncountable (why : Uncountable)
  /-- An integer that is to be written and has too many digits. -/
  | tooManyDigits
  /-- A JSON text whose arrays and objects there is no room to enter. -/
  | tooNested (form : Nesting)
  /-- A handler that breaks off. -/
  | handler (kind : String)
  /-- Schemas nested deeper than there are classes, which never happens. -/
  | tooDeep
  deriving Repr

/-- The wording of a fault. -/
def Fault.message : Fault → String
  | .unhashable type => s!"unhashable type: {quoted type}"
  | .notSerializable type => s!"Object of type {type} is not JSON serializable"
  | .integerTooLarge => "int too large to convert to float"
  | .checkFailed message => message
  | .unknownKey key => key
  | .misuse message => message
  | .noOperation type operation => s!"{quoted type} object has no attribute {quoted operation}"
  | .badPattern why => why
  | .uncountable why => why.message
  | .tooManyDigits =>
    s!"Exceeds the limit ({Number.digitLimit} digits) for integer string conversion; " ++
      "use sys.set_int_max_str_digits() to increase the limit"
  | .tooNested form => form.message
  | .handler kind => kind
  | .tooDeep => "schemas are nested deeper than there are classes"

/-- Why a constraint cannot be attached. `owner` is a field with its class. A pattern
that repeats a part more often than can be counted is not checked to the end. -/
inductive InvalidConstraint where
  | misplaced (constraint owner label : String)
  | badPattern (owner why : String)
  | collectionLength (owner : String)
  | foreignRule (owner rule : String) (advice : Bool)
  | uncountable (why : Uncountable)
  deriving Repr

namespace InvalidConstraint

/-- The wording of the cause. -/
def message : InvalidConstraint → String
  | .misplaced constraint owner label =>
    s!"{constraint} cannot be applied to {owner} of type {label}"
  | .badPattern owner why => s!"Invalid pattern on {owner}: {why}"
  | .collectionLength owner => s!"{owner}: collection length constraints are not supported"
  | .foreignRule owner rule advice =>
    s!"{owner}: unsupported constraint {rule}" ++ (if advice then ", use Min or Max" else "")
  | .uncountable why => why.message

end InvalidConstraint

/-- A failure of whoever describes classes and registers routes. -/
inductive ConfigurationError where
  | unsupportedType (cause : UnsupportedType)
  | invalidConstraint (cause : InvalidConstraint)
  | duplicateField (className wireName : String)
  | conflictingLocations (field className : String)
  | sharedWireName (first second wireName : String)
  | discriminatorField (className discriminator : String)
  | missingPath
  | schemaConflict (name existing incoming : String)
  | unannotatedParameter (shape field : String)
  | pathMismatch (path : String) (missing unused : List String)
  | duplicateRoute (method path : String)
  | closed (what : String)
  deriving Repr

namespace ConfigurationError

/-- The code of the failure. -/
def code : ConfigurationError → String
  | .unsupportedType _ => "UNSUPPORTED_TYPE"
  | .invalidConstraint _ => "INVALID_CONSTRAINT"
  | .duplicateField .. => "DUPLICATE_FIELD"
  | .conflictingLocations .. => "CONFLICTING_LOCATIONS"
  | .sharedWireName .. | .discriminatorField .. => "DISCRIMINATOR_CONFLICT"
  | .missingPath => "MISSING_PATH"
  | .schemaConflict .. => "SCHEMA_CONFLICT"
  | .unannotatedParameter .. => "UNANNOTATED_PARAMETER"
  | .pathMismatch .. => "PATH_PARAMETER_MISMATCH"
  | .duplicateRoute .. => "DUPLICATE_ROUTE"
  | .closed _ => "REGISTRATION_CLOSED"

/-- The wording of the failure. -/
def message : ConfigurationError → String
  | .unsupportedType cause => cause.message
  | .invalidConstraint cause => cause.message
  | .duplicateField className wireName =>
    s!"{className} exposes {quoted wireName} more than once"
  | .conflictingLocations field className =>
    s!"Field {quoted field} of {className} has more than one location annotation"
  | .sharedWireName first second wireName =>
    s!"Variants {first} and {second} share the wire name {quoted wireName}"
  | .discriminatorField className discriminator =>
    s!"Variant {className} has a field named like the discriminator {quoted discriminator}"
  | .missingPath => "A route needs a path or a params shape decorated with @paths"
  | .schemaConflict name existing incoming =>
    s!"Schema name {quoted name} is already registered for {existing}, cannot register {incoming}"
  | .unannotatedParameter shape field =>
    s!"Field {quoted field} of {shape} must be annotated with " ++
      "one of PathParam, QueryParam, HeaderParam"
  | .pathMismatch path missing unused =>
    let absent := if missing.isEmpty then [] else [s!"no PathParam field for {textList missing}"]
    let extra :=
      if unused.isEmpty then [] else [s!"PathParam fields {textList unused} not in template"]
    s!"Path {path}: " ++ joinTexts "; " (absent ++ extra)
  | .duplicateRoute method path => s!"{method} {path} is already registered"
  | .closed what => s!"Cannot register {what}: the OpenAPI document is already finalized"

/-- What the failure adds for programs. -/
def details : ConfigurationError → Option (List (String × Json))
  | .schemaConflict name _ _ => some [("name", .text name)]
  | .unannotatedParameter shape field => some [("shape", .text shape), ("field", .text field)]
  | .pathMismatch path missing unused =>
    some [("path", .text path), ("missing", .array (missing.map .text)),
      ("unused", .array (unused.map .text))]
  | .duplicateRoute method path => some [("method", .text method), ("path", .text path)]
  | _ => none

end ConfigurationError

/-- Nothing serves a request. -/
inductive RoutingError where
  | notFound (path : String)
  | methodNotAllowed (method path : String) (allowed : List String)
  deriving Repr

/-- A failure that a handler reports on its own account. -/
structure ReportedError where
  code : String
  message : String
  status : Int
  details : Option Json
  deriving Repr

/-- Any failure. -/
inductive Failure where
  | binding (error : BindingError)
  | configuration (error : ConfigurationError)
  | routing (error : RoutingError)
  | reported (error : ReportedError)
  | fault (fault : Fault)
  deriving Repr

/-- What a client or a program is told about a failure. -/
structure FailureReport where
  code : String
  message : String
  status : Int
  details : Option Json
  deriving Repr

namespace RoutingError

/-- What is told about a request that nothing serves. -/
def report : RoutingError → FailureReport
  | .notFound path =>
    ⟨"NOT_FOUND", s!"No route matches {path}", 404, some (.object [("path", .text path)])⟩
  | .methodNotAllowed method path allowed =>
    ⟨"METHOD_NOT_ALLOWED", s!"{method} is not allowed on {path}", 405,
      some (.object [("allowed", .array (allowed.map .text))])⟩

end RoutingError

namespace Failure

/-- A refused value as a failure: the client's, unless the refusal cannot be worded. -/
def refused (field : Option String) (why : Refusal) : Failure :=
  match why.isWritable with
  | true => .binding (.refused field why)
  | false => .fault .tooManyDigits

/-- A refusal is the client's failure just where it can be worded. -/
theorem refused_eq_binding_iff {field : Option String} {why : Refusal} {e : BindingError} :
    refused field why = .binding e ↔ why.isWritable = true ∧ e = .refused field why := by
  unfold refused
  cases why.isWritable with
  | true => simp [eq_comm]
  | false => simp

/-- A type that cannot be modelled as a failure. -/
def unsupported (cause : UnsupportedType) : Failure :=
  .configuration (.unsupportedType cause)

/-- A failure of describing classes or registering routes: a fault where a pattern was not
checked to the end. -/
def ofConfiguration : ConfigurationError → Failure
  | .invalidConstraint (.uncountable why) => .fault (.uncountable why)
  | e => .configuration e

/-- What is told about a failure, none for a fault. -/
def report? : Failure → Option FailureReport
  | .binding e => some ⟨e.code, e.message, 400, e.details.map .object⟩
  | .configuration e => some ⟨e.code, e.message, 500, e.details.map .object⟩
  | .routing e => some e.report
  | .reported e => some ⟨e.code, e.message, e.status, e.details⟩
  | .fault _ => none

end Failure

end HttpContract
