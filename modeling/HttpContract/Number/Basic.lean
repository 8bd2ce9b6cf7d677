import HttpContract.Number.Double

/-!
# Integers and doubles together

A bound of a constraint and a number in a JSON text are either an integer of any size or a
double. Order and equality are those of the exact values, whatever the two forms are.
-/

namespace HttpContract

/-- An integer or a double. The two forms stay apart also where their values agree. -/
inductive Number where
  | int (value : Int)
  | float (value : Double)
  deriving DecidableEq, Repr, Inhabited

namespace Number

/-- Where a number lies on the extended line: the side of an infinity, or the middle with an
exact value. Not a number lies nowhere. -/
def position? : Number → Option (Int × Rat)
  | .int n => some (0, n)
  | .float (.infinite negative) => some (if negative then -1 else 1, 0)
  | .float x => x.toRat?.map fun q => (0, q)

/-- Strictly less, as exact values. -/
def less (a b : Number) : Bool :=
  match a.position?, b.position? with
  | some (s, p), some (t, q) => s < t || (s == t && p < q)
  | _, _ => false

/-- Equal as exact values. Not a number equals nothing. -/
def same (a b : Number) : Bool :=
  match a.position?, b.position? with
  | some p, some q => p == q
  | _, _ => false

/-- Most digits that an integer may have where it is read or written. -/
def digitLimit : Nat := 4300

/-- What is said of digits that are too many to be read as an integer. -/
def overlongText (count : Nat) : String :=
  s!"Exceeds the limit ({digitLimit} digits) for integer string conversion: value has " ++
    s!"{count} digits; use sys.set_int_max_str_digits() to increase the limit"

/-- Whether a number can be written. An integer of too many digits cannot. -/
def isWritable : Number → Bool
  | .int n => decide ((Nat.toDigits 10 n.natAbs).length ≤ digitLimit)
  | .float _ => true

end Number

end HttpContract
