/-!
# Hexadecimal digits

Numbers below sixteen as characters: ten digits, and six letters in either case.
-/

namespace HttpContract

namespace Hexadecimal

/-- The value of a digit. -/
def value? (c : Char) : Option Nat :=
  let code := c.toNat
  if 48 ≤ code ∧ code ≤ 57 then some (code - 48)
  else if 97 ≤ code ∧ code ≤ 102 then some (code - 87)
  else if 65 ≤ code ∧ code ≤ 70 then some (code - 55)
  else none

/-- The digits of a number, in lower case, filled with zeros up to a width. -/
def padded (width n : Nat) : List Char :=
  let digits := Nat.toDigits 16 n
  List.replicate (width - digits.length) '0' ++ digits

end Hexadecimal

end HttpContract
