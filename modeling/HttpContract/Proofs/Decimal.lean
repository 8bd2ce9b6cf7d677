import HttpContract.Binding.Conversion

/-!
# Decimal digits read back

The digits that an integer is written with are read as this integer, as long as there are no more of
them than integers may have. Longer ones are neither written nor read.
-/

namespace HttpContract

namespace DecimalText

/-- The digits of a number write this number. -/
theorem natOfDigits_toDigits (n : Nat) : natOfDigits (Nat.toDigits 10 n) = n :=
  Nat.ofDigitChars_ten_toDigits

/-- The digits of a number are decimal digits. -/
theorem all_isDigit_toDigits (n : Nat) : (Nat.toDigits 10 n).all Char.isDigit = true := by
  rw [List.all_eq_true]
  intro c hc
  exact Nat.isDigit_of_mem_toDigits (by omega) (by omega) hc

/-- A number is written with digits only. -/
theorem notMem_repr {c : Char} (hc : c.isDigit = false) (n : Nat) : c ∉ n.repr.toList := by
  rw [Nat.toList_repr]
  intro hmem
  have hdigit := List.all_eq_true.mp (all_isDigit_toDigits n) c hmem
  exact Bool.false_ne_true (hc.symm.trans hdigit)

/-- The numbers below a power of ten have no more digits than the power says. -/
theorem length_toDigits_le_iff {n limit : Nat} (hpos : 0 < limit) :
    (Nat.toDigits 10 n).length ≤ limit ↔ n < Nat.pow 10 limit :=
  Nat.length_toDigits_le_iff (by omega) hpos

/-- Digits in front of which no sign stands have none to be split off. -/
theorem splitSign_toDigits (n : Nat) :
    splitSign (Nat.toDigits 10 n) = (false, Nat.toDigits 10 n) := by
  have hdigits := all_isDigit_toDigits n
  unfold splitSign
  split
  · rename_i heq
    rw [heq] at hdigits
    simp at hdigits
  · rename_i heq
    rw [heq] at hdigits
    simp at hdigits
  · rfl

/-- An integer is written with the digits of its magnitude, behind a minus when it is negative. -/
theorem toList_toString (n : Int) : (toString n).toList =
    if 0 ≤ n then Nat.toDigits 10 n.natAbs else '-' :: Nat.toDigits 10 n.natAbs := by
  rw [Int.toString_eq_repr, Int.repr_eq_if]
  by_cases hn : 0 ≤ n
  · rw [if_pos hn, if_pos hn, Nat.toList_repr]
    congr 1
    omega
  · have hnat : (-n).toNat = n.natAbs := by omega
    rw [if_neg hn, if_neg hn, String.toList_append, Nat.toList_repr, hnat]
    rfl

end DecimalText

namespace Binding

open DecimalText

/-- Digits within the limit for integers, with a sign split off, are read as their integer. -/
theorem integer?_of_splitSign {s : String} {negative : Bool} {n : Nat}
    (hlimit : n < Nat.pow 10 Number.digitLimit)
    (hs : splitSign s.toList = (negative, Nat.toDigits 10 n)) :
    integer? s = some (if negative then -(n : Int) else n) := by
  have hlength := (length_toDigits_le_iff (by decide)).mpr hlimit
  have hsome : (Nat.toDigits 10 n).isEmpty = false := by
    simp
  rw [integer?, hs]
  simp only [hsome, all_isDigit_toDigits, natOfDigits_toDigits, Bool.not_true, Bool.false_or,
    decide_eq_true_eq]
  rw [if_neg (by omega)]

/-- An integer within the limit is read back from the text that it is written as. -/
theorem integer?_toString {n : Int} (hlimit : n.natAbs < Nat.pow 10 Number.digitLimit) :
    integer? (toString n) = some n := by
  have htext := toList_toString n
  by_cases hn : 0 ≤ n
  · rw [if_pos hn] at htext
    have hread := integer?_of_splitSign (s := toString n) hlimit
      (by rw [htext, splitSign_toDigits])
    have hvalue : (n.natAbs : Int) = n := by omega
    rw [hread, if_neg Bool.false_ne_true, hvalue]
  · rw [if_neg hn] at htext
    have hread := integer?_of_splitSign (s := toString n) hlimit (by rw [htext, splitSign])
    have hvalue : -(n.natAbs : Int) = n := by omega
    rw [hread, if_pos rfl, hvalue]

end Binding

namespace Number

/-- The integers that can be written are those below a power of ten. -/
theorem isWritable_int_iff {n : Int} :
    (int n).isWritable = true ↔ n.natAbs < Nat.pow 10 digitLimit := by
  have hpos : 0 < digitLimit := by decide
  unfold isWritable
  -- The limit is no number to compute with.
  generalize digitLimit = limit at hpos ⊢
  exact decide_eq_true_iff.trans (DecimalText.length_toDigits_le_iff hpos)

/-- The least positive integer that cannot be written. -/
def overlong : Int := Nat.pow 10 digitLimit

/-- The integer of too many digits cannot be written. -/
theorem isWritable_overlong : (int overlong).isWritable = false := by
  have habs : overlong.natAbs = Nat.pow 10 digitLimit := Int.natAbs_natCast _
  refine Bool.eq_false_iff.mpr fun hwritable => ?_
  have hless := isWritable_int_iff.mp hwritable
  rw [habs] at hless
  exact Nat.lt_irrefl _ hless

end Number

end HttpContract
