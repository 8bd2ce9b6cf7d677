import HttpContract.Json.Basic
import HttpContract.Calendar.DateTime
import HttpContract.Uuid

/-!
# Values

The data that handlers see: what a request is bound to, what a body is decoded to, the defaults
of fields and the results of handlers.
-/

namespace HttpContract

/-- What the members of an enumeration are besides members: nothing, integers or texts. -/
inductive EnumMixin where
  | plain
  | integer
  | text
  deriving DecidableEq, Repr, Inhabited

/-- A value. A member of an enumeration carries its own value, and a record its attributes in the
order of the fields. The last three have no JSON form. -/
inductive Value where
  | null
  | bool (value : Bool)
  | number (value : Number)
  | text (value : String)
  | list (items : List Value)
  | tuple (items : List Value)
  | set (frozen : Bool) (items : List Value)
  | dict (entries : List (Value × Value))
  | uuid (value : Uuid)
  | date (value : Date)
  | dateTime (value : DateTime)
  | member (enumeration name : String) (mixin : EnumMixin) (value : Value)
  | record (className : String) (attributes : List (String × Value))
  | decimal (text : String)
  | bytes (data : List UInt8)
  | opaqueObject
  deriving Repr, Inhabited

namespace Value

/-- An integer as a value. -/
def int (n : Int) : Value := .number (.int n)

/-- A double as a value. -/
def float (x : Double) : Value := .number (.float x)

mutual

/-- A JSON value as it is handed on where any value is allowed. -/
def ofJson : Json → Value
  | .null => .null
  | .bool b => .bool b
  | .number n => .number n
  | .text s => .text s
  | .array items => .list (ofJsonItems items)
  | .object members => .dict (ofJsonMembers members)

/-- The items of an array as values. -/
def ofJsonItems : List Json → List Value
  | [] => []
  | item :: items => ofJson item :: ofJsonItems items

/-- The members of an object as entries with texts for keys. -/
def ofJsonMembers : List (String × Json) → List (Value × Value)
  | [] => []
  | (key, value) :: members => (.text key, ofJson value) :: ofJsonMembers members

end

end Value

end HttpContract
