/-!
# Double-precision numbers

A double is kept as the exact dyadic rational it stands for, so that comparing it with an
integer of any size never rounds. Rounding happens in one place, `Double.ofRatio`.
-/

namespace HttpContract

/-- A double: a signed magnitude `mantissa * 2 ^ exponent`, an infinity, or not a number. -/
inductive Double where
  | finite (negative : Bool) (mantissa : Nat) (exponent : Int)
  | infinite (negative : Bool)
  | nan
  deriving DecidableEq, Repr, Inhabited

namespace Double

/-- The least exponent of a double, that of the subnormal numbers. -/
def leastExponent : Int := -1074

/-- The greatest exponent of a finite double. -/
def greatestExponent : Int := 971

/-- A signed zero. -/
def zero (negative : Bool) : Double := .finite negative 0 leastExponent

/-- Neither infinite nor not a number. -/
def isFinite : Double → Bool
  | .finite .. => true
  | _ => false

/-- The rational number that a finite double stands for. -/
def toRat? : Double → Option Rat
  | .finite negative m e =>
    let magnitude : Rat :=
      if 0 ≤ e then ((m * Nat.pow 2 e.toNat : Nat) : Rat) else mkRat m (Nat.pow 2 (-e).toNat)
    some (if negative then -magnitude else magnitude)
  | _ => none

/-- The quotient rounded to the nearest integer, a half going to the even neighbour. -/
def roundQuotient (num den : Nat) : Nat :=
  let q := num / den
  let twice := 2 * (num % den)
  if twice < den then q
  else if den < twice then q + 1
  else if q % 2 = 0 then q else q + 1

/-- The exponent `k` with `2 ^ k ≤ num / den < 2 ^ (k + 1)`. -/
def binaryOrder (num den : Nat) : Int :=
  let k : Int := (num.log2 : Int) - den.log2
  let reaches := if 0 ≤ k then den * Nat.pow 2 k.toNat ≤ num
    else den ≤ num * Nat.pow 2 (-k).toNat
  if reaches then k else k - 1

/-- The double nearest to `num / den`, a half going to the even mantissa and a magnitude that
rounds to `2 ^ 1024` or more going to infinity. -/
def ofRatio (negative : Bool) (num den : Nat) : Double :=
  if num = 0 then zero negative
  else
    let e := max (binaryOrder num den - 52) leastExponent
    let m := if 0 ≤ e then roundQuotient num (den * Nat.pow 2 e.toNat)
      else roundQuotient (num * Nat.pow 2 (-e).toNat) den
    let (m, e) := if m = Nat.pow 2 53 then (Nat.pow 2 52, e + 1) else (m, e)
    if m = 0 then zero negative
    else if greatestExponent < e then .infinite negative
    else .finite negative m e

/-- The double nearest to an integer, none when its magnitude rounds to `2 ^ 1024` or more. -/
def ofInt? (n : Int) : Option Double :=
  match ofRatio (n < 0) n.natAbs 1 with
  | .infinite _ => none
  | x => some x

/-- The number of decimal digits of a natural number. -/
def digitCount (n : Nat) : Nat := (Nat.toDigits 10 n).length

/-- The double nearest to `digits * 10 ^ exponent`. Magnitudes far outside the range are settled
by their order alone, so that a huge exponent costs nothing. -/
def ofDecimal (negative : Bool) (digits : Nat) (exponent : Int) : Double :=
  if digits = 0 then zero negative
  else
    let order := (digitCount digits : Int) + exponent
    if 400 < order then .infinite negative
    else if order < -400 then zero negative
    else if 0 ≤ exponent then ofRatio negative (digits * Nat.pow 10 exponent.toNat) 1
    else ofRatio negative digits (Nat.pow 10 (-exponent).toNat)

/-- The value of a finite double that is a whole number. -/
def toInt? (x : Double) : Option Int :=
  match x.toRat? with
  | some q => if q.den = 1 then some q.num else none
  | none => none

end Double

end HttpContract
