import HttpContract.Number.Basic
import HttpContract.Table

/-!
# JSON values

The tree that a JSON text denotes. Members of an object keep their order, and integers keep
apart from doubles. The members of an object are a table: what is read or made sets them one by one,
so that keys never repeat.
-/

namespace HttpContract

/-- A JSON value. -/
inductive Json where
  | null
  | bool (value : Bool)
  | number (value : Number)
  | text (value : String)
  | array (items : List Json)
  | object (members : List (String × Json))
  deriving Repr, Inhabited

namespace Json

/-- An integer as a JSON value. -/
def int (n : Int) : Json := .number (.int n)

end Json

end HttpContract
