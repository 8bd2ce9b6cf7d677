import HttpContract.Number.Double

/-!
# Shortest decimal text of a double

The digits are the fewest that read back as the same double, and of those the nearest to it.
How the digits are laid out is a record of choices, so that two writers share the digits.
-/

namespace HttpContract

namespace Double

/-- The interval of magnitudes that round to `mantissa * 2 ^ exponent`, in units of
`2 ^ (exponent - 2)`. The ends belong to it when the mantissa is even. -/
def roundingInterval (mantissa : Nat) (exponent : Int) : Nat × Nat :=
  let low := if mantissa = Nat.pow 2 52 ∧ leastExponent < exponent then 4 * mantissa - 1
    else 4 * mantissa - 2
  (low, 4 * mantissa + 2)

/-- The point of the grid `10 ^ place` nearest to a magnitude, if one reads back as it. -/
def gridPoint? (mantissa : Nat) (exponent place : Int) : Option Nat :=
  let e := exponent - 2
  let unit := Nat.pow 2 e.toNat * Nat.pow 10 (-place).toNat
  let step := Nat.pow 2 (-e).toNat * Nat.pow 10 place.toNat
  let value := 4 * mantissa * unit
  let (low, high) := roundingInterval mantissa exponent
  let admitted (d : Nat) : Bool :=
    if mantissa % 2 = 0 then low * unit ≤ d * step && d * step ≤ high * unit
    else low * unit < d * step && d * step < high * unit
  let below := value / step
  let above := below + 1
  match admitted below, admitted above with
  | true, true =>
    let down := value - below * step
    let up := above * step - value
    if down < up || (down == up && below % 2 == 0) then some below else some above
  | true, false => some below
  | false, true => some above
  | false, false => none

/-- An exponent `k` with the magnitude below `10 ^ k`, at most a few too large. -/
def decimalOrderBound (mantissa : Nat) (exponent : Int) : Int :=
  ((mantissa.log2 : Int) + 1 + exponent) * 30103 / 100000 + 1

/-- The shortest decimal digits `d` and their place `p`, the magnitude being read back from
`d * 10 ^ p`. -/
def shortest (mantissa : Nat) (exponent : Int) : Nat × Int :=
  let top := decimalOrderBound mantissa exponent
  let found := (List.range 24).findSome? fun (i : Nat) =>
    (gridPoint? mantissa exponent (top - i)).map fun d => (d, top - i)
  found.getD (mantissa, 0)

end Double

/-- How the shortest digits of a double are laid out. -/
structure FloatLayout where
  /-- The least decimal exponent written positionally. -/
  leastPositional : Int
  /-- The least decimal exponent above the positional range. -/
  firstScientific : Int
  /-- The least number of digits of a written exponent. -/
  exponentWidth : Nat
  /-- The text of not a number. -/
  nanText : String
  /-- The texts of the positive and of the negative infinity. -/
  infinityTexts : String × String
  deriving Repr

namespace FloatLayout

/-- Zeros in front of a text up to a width. -/
def padded (width : Nat) (digits : List Char) : List Char :=
  List.replicate (width - digits.length) '0' ++ digits

/-- Digits `ds` with the point after the first `point` of them, filled with zeros. -/
def positional (ds : List Char) (point : Int) : List Char :=
  if point ≤ 0 then '0' :: '.' :: (List.replicate (-point).toNat '0' ++ ds)
  else if (ds.length : Int) ≤ point then
    ds ++ List.replicate (point.toNat - ds.length) '0' ++ ['.', '0']
  else ds.take point.toNat ++ '.' :: ds.drop point.toNat

/-- Digits `ds` with the point after the first and a power of ten behind. -/
def scientific (width : Nat) (ds : List Char) (power : Int) : List Char :=
  let fraction := if ds.length ≤ 1 then [] else '.' :: ds.drop 1
  let sign := if power < 0 then '-' else '+'
  ds.take 1 ++ fraction ++ 'e' :: sign :: padded width (Nat.toDigits 10 power.natAbs)

/-- The text of a double. A finite one always shows a point or a power of ten. -/
def render (layout : FloatLayout) : Double → String
  | .nan => layout.nanText
  | .infinite negative => if negative then layout.infinityTexts.2 else layout.infinityTexts.1
  | .finite negative m e =>
    let body :=
      if m = 0 then ['0', '.', '0']
      else
        let (d, place) := Double.shortest m e
        let ds := Nat.toDigits 10 d
        let point := place + ds.length
        if layout.leastPositional ≤ point - 1 ∧ point - 1 < layout.firstScientific then
          positional ds point
        else scientific layout.exponentWidth ds (point - 1)
    String.ofList (if negative then '-' :: body else body)

end FloatLayout

end HttpContract
