/-!
# Dates

Dates of the proleptic Gregorian calendar in the years 1 to 9999, written as in ISO 8601. A date
is read from the calendar forms and from the week forms, each with hyphens or without.
-/

namespace HttpContract

/-- A day of the calendar. -/
structure Date where
  year : Nat
  month : Nat
  day : Nat
  deriving DecidableEq, Repr, Inhabited

/-- The bytes of an ISO 8601 text. A position past the end reads as zero. -/
abbrev IsoBytes := List UInt8

namespace IsoBytes

/-- The byte at the front, zero past the end. -/
def front (bytes : IsoBytes) : UInt8 := bytes.headD 0

/-- Whether the front byte is the given character. -/
def starts (bytes : IsoBytes) (c : Char) : Bool := bytes.front == c.toNat.toUInt8

/-- The value of a byte that is a decimal digit. -/
def digit? (byte : UInt8) : Option Nat :=
  if 48 ≤ byte ∧ byte ≤ 57 then some (byte.toNat - 48) else none

/-- The number written by the first `count` bytes and the bytes behind them. -/
def number? (count : Nat) (bytes : IsoBytes) (value : Nat) : Option (Nat × IsoBytes) :=
  match count with
  | 0 => some (value, bytes)
  | count + 1 =>
    match digit? bytes.front with
    | some d => number? count bytes.tail (10 * value + d)
    | none => none

/-- The bytes behind the hyphen that must stand at the front when hyphens are in use. -/
def afterHyphen? (hyphens : Bool) (bytes : IsoBytes) : Option IsoBytes :=
  if hyphens then (if bytes.starts '-' then some bytes.tail else none) else some bytes

end IsoBytes

namespace Date

/-- Whether a year has a 29th of February. -/
def isLeap (year : Nat) : Bool := year % 4 == 0 && (year % 100 != 0 || year % 400 == 0)

/-- The number of days of a month. -/
def daysInMonth (year month : Nat) : Nat :=
  match month with
  | 2 => if isLeap year then 29 else 28
  | 4 | 6 | 9 | 11 => 30
  | _ => 31

/-- A day of the years 1 to 9999. -/
def isValid (d : Date) : Bool :=
  1 ≤ d.year && d.year ≤ 9999 && 1 ≤ d.month && d.month ≤ 12 && 1 ≤ d.day &&
    d.day ≤ daysInMonth d.year d.month

/-- The number of days before the first of January of a year. -/
def daysBeforeYear (year : Nat) : Nat :=
  let y := year - 1
  y * 365 + y / 4 - y / 100 + y / 400

/-- The number of days before the first of a month within its year. -/
def daysBeforeMonth (year month : Nat) : Nat :=
  (List.range' 1 (month - 1)).foldl (fun days month => days + daysInMonth year month) 0

/-- The number of a day, the first of January of year 1 being day 1. -/
def ordinal (d : Date) : Nat := daysBeforeYear d.year + daysBeforeMonth d.year d.month + d.day

/-- The date that lies `days` days after the first of January of a year. -/
def ofYearDay (year days : Nat) : Date :=
  let length := if isLeap year then 366 else 365
  let (year, days) := if length ≤ days then (year + 1, days - length) else (year, days)
  let month := ((List.range' 2 11).takeWhile fun m => daysBeforeMonth year m ≤ days).length + 1
  ⟨year, month, days - daysBeforeMonth year month + 1⟩

/-- The day of the week of the first of January, Monday being 0. -/
def firstWeekday (year : Nat) : Nat := (daysBeforeYear year + 7) % 7

/-- Whether a year of the week calendar has 53 weeks. -/
def hasLongWeekYear (year : Nat) : Bool :=
  firstWeekday year == 3 || (firstWeekday year == 2 && isLeap year)

/-- The date of a day in a week of the week calendar. -/
def ofWeek? (year week day : Nat) : Option Date :=
  if year < 1 ∨ 9999 < year ∨ week < 1 ∨ 53 < week ∨ (week = 53 ∧ hasLongWeekYear year = false) ∨
      day < 1 ∨ 7 < day then none
  else
    let first := firstWeekday year
    let monday : Int := if 3 < first then 7 - first else -(first : Int)
    let offset := monday + (week - 1) * 7 + (day - 1)
    if 0 ≤ offset then some (ofYearDay year offset.toNat)
    else if year = 1 then none
    else
      let length := if isLeap (year - 1) then 366 else 365
      some (ofYearDay (year - 1) (length - (-offset).toNat))

/-- The date at the front of the bytes; `width` is the number of bytes given to it. -/
def readFront? (bytes : IsoBytes) (width : Nat) : Option Date := do
  let (year, rest) ← IsoBytes.number? 4 bytes 0
  let hyphens := IsoBytes.starts rest '-'
  let rest := if hyphens then rest.tail else rest
  if IsoBytes.starts rest 'W' then
    let (week, rest) ← IsoBytes.number? 2 rest.tail 0
    if bytes.length - rest.length < width then
      let (day, _) ← IsoBytes.number? 1 (← IsoBytes.afterHyphen? hyphens rest) 0
      ofWeek? year week day
    else ofWeek? year week 1
  else
    let (month, rest) ← IsoBytes.number? 2 rest 0
    let (day, _) ← IsoBytes.number? 2 (← IsoBytes.afterHyphen? hyphens rest) 0
    some ⟨year, month, day⟩

/-- The date written by a text of 7, 8 or 10 bytes. -/
def parse? (s : String) : Option Date :=
  let bytes : IsoBytes := s.toUTF8.toList
  if bytes.length = 7 ∨ bytes.length = 8 ∨ bytes.length = 10 then
    (readFront? bytes bytes.length).filter isValid
  else none

/-- Decimal digits filled with zeros up to a width. -/
def padded (width n : Nat) : String :=
  let digits := Nat.toDigits 10 n
  String.ofList (List.replicate (width - digits.length) '0' ++ digits)

/-- A date as year, month and day with hyphens. -/
def toText (d : Date) : String :=
  padded 4 d.year ++ "-" ++ padded 2 d.month ++ "-" ++ padded 2 d.day

end Date

end HttpContract
