import HttpContract.Body.Reader
import HttpContract.Number.DecimalText

/-!
# Values from texts

How one text of a request becomes a scalar value. Numbers are written in plain ASCII notation;
members of enumerations by their values or by their names.
-/

namespace HttpContract

namespace Binding

/-- The integer that a text writes: an optional sign and digits, of a number that stays within the
limit for integers. -/
def integer? (s : String) : Option Int :=
  let (negative, ds) := DecimalText.splitSign s.toList
  if ds.isEmpty || !ds.all Char.isDigit || Number.digitLimit < ds.length then none
  else
    let n : Int := DecimalText.natOfDigits ds
    some (if negative then -n else n)

/-- The finite double that a text writes. -/
def number? (s : String) : Option Double :=
  let (negative, cs) := DecimalText.splitSign s.toList
  (DecimalText.double? negative cs).filter Double.isFinite

/-- The truth value that a text writes, in any case. -/
def boolean? (s : String) : Option Bool :=
  let word := lowerText s
  if word = "true" then some true
  else if word = "false" then some false
  else none

/-- The member that a text names: the first one whose value is written so, or else the one of that
name. Members are looked through up to one whose value cannot be written, which names nothing. -/
def member? (name : String) (e : Enumeration) (s : String) : Option Value :=
  match e.members.find? fun (_, value) => !value.hasText || value.plainText = s with
  | some member => if member.2.hasText then some (Body.memberValue name e member) else none
  | none => (e.find? s).map (Body.memberValue name e)

/-- The types that one text is read as. -/
inductive ParameterType where
  | scalar (type : Scalar)
  | enumeration (name : String)
  deriving DecidableEq, Repr

/-- The parameter type of a resolved type, if it has one. -/
def parameterType? : TypeInfo → Option ParameterType
  | .leaf (.scalar type) _ _ => some (.scalar type)
  | .leaf (.enumeration name) _ _ => some (.enumeration name)
  | _ => none

/-- The value that a text writes. -/
def convert? (C : Classes) (type : ParameterType) (s : String) : Option Value :=
  match type with
  | .scalar .text => some (.text s)
  | .scalar .integer => (integer? s).map Value.int
  | .scalar .number => (number? s).map Value.float
  | .scalar .boolean => (boolean? s).map .bool
  | .scalar .uuid => (Uuid.parse? s).map .uuid
  | .scalar .date => (Date.parse? s).map .date
  | .scalar .dateTime => (DateTime.parse? s).map .dateTime
  | .enumeration name => (C.enumeration? name).bind fun e => member? name e s

end Binding

end HttpContract
