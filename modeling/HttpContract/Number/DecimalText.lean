import HttpContract.Number.Double

/-!
# Decimal notation

The parts of a number in decimal notation, taken from the front of a list of characters: digits,
and a power of ten with its sign. Only the ten digits of ASCII count.
-/

namespace HttpContract

namespace DecimalText

/-- The number that decimal digits write. -/
def natOfDigits (ds : List Char) : Nat := ds.foldl (fun n d => 10 * n + (d.toNat - 48)) 0

/-- Decimal digits at the front. -/
def digitRun (cs : List Char) : List Char := cs.takeWhile Char.isDigit

/-- A power of ten at the front: its length, sign and digits. -/
def powerRun (cs : List Char) : Nat × Bool × List Char :=
  match cs with
  | e :: rest =>
    if e = 'e' ∨ e = 'E' then
      let (marks, negative, rest) := match rest with
        | '-' :: more => (2, true, more)
        | '+' :: more => (2, false, more)
        | _ => (1, false, rest)
      let ds := digitRun rest
      if ds.isEmpty then (0, false, []) else (marks + ds.length, negative, ds)
    else (0, false, [])
  | [] => (0, false, [])

/-- The sign in front of a number, a plus counting as none, and what follows it. -/
def splitSign : List Char → Bool × List Char
  | '-' :: rest => (true, rest)
  | '+' :: rest => (false, rest)
  | cs => (false, cs)

/-- The double written by digits, with an optional point among or around them and an optional
power of ten; nothing else may stand there. -/
def double? (negative : Bool) (cs : List Char) : Option Double :=
  let whole := digitRun cs
  let behind := cs.drop whole.length
  let (point, fraction) := match behind with
    | '.' :: rest => (1, digitRun rest)
    | _ => (0, [])
  let (width, powerNegative, power) := powerRun (behind.drop (point + fraction.length))
  if whole.length + fraction.length = 0 ∨
      cs.length ≠ whole.length + point + fraction.length + width then none
  else
    let p : Int := natOfDigits power
    let exponent := (if powerNegative then -p else p) - fraction.length
    some (.ofDecimal negative (natOfDigits (whole ++ fraction)) exponent)

end DecimalText

end HttpContract
