/-!
# Sets of code points

A set of characters is given by the code points at which membership changes, in increasing
order and starting from "not in the set". A binary search finds how many changes a code point
has passed; it is in the set when that number is odd.
-/

namespace HttpContract

/-- A set of code points, as the increasing list of the points where membership changes. -/
structure CodeSet where
  /-- The points of change. -/
  changes : Array Nat

namespace CodeSet

/-- The number of changes at or below `code`, among those at positions from `low` to below
`low + width`. -/
def passed (set : CodeSet) (code low : Nat) (width : Nat) : Nat :=
  if h : width = 0 then low
  else
    let half := width / 2
    if set.changes.getD (low + half) 0 ≤ code then
      passed set code (low + half + 1) (width - half - 1)
    else passed set code low half
termination_by width
decreasing_by all_goals omega

/-- Membership of a code point. -/
def containsCode (set : CodeSet) (code : Nat) : Bool :=
  set.passed code 0 set.changes.size % 2 == 1

/-- Membership of a character. -/
def contains (set : CodeSet) (c : Char) : Bool := set.containsCode c.toNat

end CodeSet

end HttpContract
