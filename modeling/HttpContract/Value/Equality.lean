import HttpContract.Value.Basic

/-!
# Equality of values

Numbers are equal when their exact values are, a truth value counting as 0 or 1. Members of
enumerations that are integers or texts equal their values. Sets and dictionaries do not depend
on order.
-/

namespace HttpContract

namespace Value

/-- The number that a value counts as in a comparison. -/
def asNumber? : Value → Option Number
  | .bool b => some (.int (if b then 1 else 0))
  | .number n => some n
  | .member _ _ .integer (.number n) => some n
  | .member _ _ .integer (.bool b) => some (.int (if b then 1 else 0))
  | _ => none

/-- The text that a value counts as in a comparison. -/
def asText? : Value → Option String
  | .text s => some s
  | .member _ _ .text (.text s) => some s
  | _ => none

/-- The exact value written by a decimal: a sign, digits with an optional point, and an optional
power of ten. -/
def decimalRat? (text : String) : Option Rat :=
  let cs := text.toList
  let (negative, cs) := match cs with
    | '-' :: rest => (true, rest)
    | '+' :: rest => (false, rest)
    | _ => (false, cs)
  let mantissa := cs.takeWhile fun c => c != 'e' && c != 'E'
  let power := cs.drop (mantissa.length + 1)
  let whole := mantissa.takeWhile (· != '.')
  let fraction := mantissa.drop (whole.length + 1)
  let digits := whole ++ fraction
  if digits.isEmpty || !digits.all Char.isDigit then none
  else
    let n := digits.foldl (fun n c => 10 * n + (c.toNat - 48)) 0
    let power := match power with
      | '+' :: rest => rest
      | _ => power
    let exponent : Option Int := if power.isEmpty then some 0 else (String.ofList power).toInt?
    exponent.map fun power =>
      let e : Int := power - fraction.length
      let magnitude : Rat :=
        if 0 ≤ e then ((n * Nat.pow 10 e.toNat : Nat) : Rat)
        else mkRat n (Nat.pow 10 (-e).toNat)
      if negative then -magnitude else magnitude

/-- Whether a number and a decimal have the same exact value. -/
def numberIsDecimal (n : Number) (text : String) : Bool :=
  match n.position?, decimalRat? text with
  | some (0, p), some q => p == q
  | _, _ => false

/-- Whether a value counts as a given number. -/
def countsAs (n : Number) (b : Value) : Bool :=
  match b.asNumber? with
  | some m => n.same m
  | none => match b with
    | .decimal t => numberIsDecimal n t
    | _ => false

/-- Whether a value is the member of an enumeration with a given name. -/
def isMember (enumeration name : String) : Value → Bool
  | .member e n _ _ => e == enumeration && n == name
  | _ => false

mutual

/-- Equality of two values. -/
def same (a b : Value) : Bool :=
  match a with
  | .null => match b with
    | .null => true
    | _ => false
  | .bool x => countsAs (.int (if x then 1 else 0)) b
  | .number x => countsAs x b
  | .text s => b.asText? == some s
  | .list xs => match b with
    | .list ys => sameItems xs ys
    | _ => false
  | .tuple xs => match b with
    | .tuple ys => sameItems xs ys
    | _ => false
  | .set _ xs => match b with
    | .set _ ys => xs.length == ys.length && includes ys xs
    | _ => false
  | .dict xs => match b with
    | .dict ys => xs.length == ys.length && includesEntries ys xs
    | _ => false
  | .uuid x => match b with
    | .uuid y => x == y
    | _ => false
  | .date x => match b with
    | .date y => x == y
    | _ => false
  | .dateTime x => match b with
    | .dateTime y => x.same y
    | _ => false
  | .member e n mixin v => isMember e n b || match mixin with
    | .plain => false
    | .integer => v.asNumber?.any (countsAs · b)
    | .text => v.asText?.any (b.asText? == some ·)
  | .record c xs => match b with
    | .record c' ys => c == c' && sameAttributes xs ys
    | _ => false
  | .decimal t => match b with
    | .decimal u => match decimalRat? t, decimalRat? u with
      | some p, some q => p == q
      | _, _ => t == u
    | _ => match b.asNumber? with
      | some n => numberIsDecimal n t
      | none => false
  | .bytes xs => match b with
    | .bytes ys => xs == ys
    | _ => false
  | .opaqueObject => false
termination_by structural a

/-- Equality of two lists of values, item by item. -/
def sameItems (xs ys : List Value) : Bool :=
  match xs with
  | [] => ys.isEmpty
  | x :: xs => match ys with
    | [] => false
    | y :: ys => same x y && sameItems xs ys
termination_by structural xs

/-- Whether every value of a list equals one of `ys`. -/
def includes (ys xs : List Value) : Bool :=
  match xs with
  | [] => true
  | x :: xs => ys.any (fun y => same x y) && includes ys xs
termination_by structural xs

/-- Whether every entry of a list equals one of `ys`. -/
def includesEntries (ys xs : List (Value × Value)) : Bool :=
  match xs with
  | [] => true
  | (k, v) :: xs =>
    ys.any (fun y => same k y.1 && same v y.2) && includesEntries ys xs
termination_by structural xs

/-- Equality of two attribute lists, position by position. -/
def sameAttributes (xs ys : List (String × Value)) : Bool :=
  match xs with
  | [] => ys.isEmpty
  | (n, v) :: xs => match ys with
    | [] => false
    | (n', w) :: ys => n == n' && same v w && sameAttributes xs ys
termination_by structural xs

end

/-- Whether a value equals one of a list. -/
def isAmong (v : Value) (vs : List Value) : Bool := vs.any v.same

/-- The list without the values that equal an earlier one. -/
def withoutRepeats (vs : List Value) : List Value :=
  vs.foldl (fun kept v => if v.isAmong kept then kept else kept ++ [v]) []

/-- Entries in which a later binding of an equal key replaces the value in place. -/
def setEntry (key value : Value) : List (Value × Value) → List (Value × Value)
  | [] => [(key, value)]
  | (k, v) :: rest => if same k key then (k, value) :: rest else (k, v) :: setEntry key value rest

/-- The entries of a dictionary given by its bindings in order. -/
def entriesOf (bindings : List (Value × Value)) : List (Value × Value) :=
  bindings.foldl (fun entries (key, value) => setEntry key value entries) []

end Value

end HttpContract
