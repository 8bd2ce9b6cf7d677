/-!
# Similar words

How alike two words are: twice the number of characters that they have in common, in order, over the
number of all their characters. What is common is the longest common stretch, and then what is
common in front of it and behind it.
-/

namespace HttpContract

namespace Similarity

/-- The number of characters at the front that two lists have in common. -/
def commonFront : List Char → List Char → Nat
  | a :: as, b :: bs => if a = b then commonFront as bs + 1 else 0
  | _, _ => 0

/-- The first of the longest common stretches: where it begins in each list, and its length. -/
def longestStretch (as bs : List Char) : Nat × Nat × Nat :=
  let places := (List.range as.length).flatMap fun (i : Nat) =>
    (List.range bs.length).map fun (j : Nat) => (i, j)
  places.foldl
    (fun (best : Nat × Nat × Nat) (i, j) =>
      let n := commonFront (as.drop i) (bs.drop j)
      if best.2.2 < n then (i, j, n) else best)
    (0, 0, 0)

/-- The number of characters that two lists have in common, in order. -/
def common (fuel : Nat) (as bs : List Char) : Nat :=
  match fuel with
  | 0 => 0
  | fuel + 1 =>
    let (i, j, n) := longestStretch as bs
    if n = 0 then 0
    else common fuel (as.take i) (bs.take j) + n +
      common fuel (as.drop (i + n)) (bs.drop (j + n))

/-- Twice the common characters of two words, and the number of all their characters. -/
def score (a b : String) : Nat × Nat :=
  let as := a.toList
  let bs := b.toList
  (2 * common (as.length + 1) as bs, as.length + bs.length)

/-- Whether at least three fifths of two words are alike. -/
def isClose (a b : String) : Bool :=
  let (part, whole) := score a b
  3 * whole ≤ 5 * part

/-- The words that are close to a given one. -/
def closeTo (word : String) (words : List String) : List String :=
  words.filter fun w => isClose w word

end Similarity

end HttpContract
