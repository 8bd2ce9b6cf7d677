import HttpContract.Calendar.Date

/-!
# Dates with a time of day

A date, a time to the microsecond and, optionally, an offset from universal time. The reader
takes any one character between date and time; the offset ends the text.
-/

namespace HttpContract

/-- A date and a time of day, with an offset in microseconds where it is known. -/
structure DateTime where
  date : Date
  hour : Nat
  minute : Nat
  second : Nat
  microsecond : Nat
  offset : Option Int
  deriving DecidableEq, Repr, Inhabited

namespace DateTime

/-- How many bytes the date takes at the front of a text of `length` bytes. -/
def dateWidth? (bytes : IsoBytes) (length : Nat) : Option Nat :=
  let digitAt (i : Nat) : Bool := (IsoBytes.digit? (bytes.getD i 0)).isSome
  let hyphenAt (i : Nat) : Bool := IsoBytes.starts (bytes.drop i) '-'
  let weekAt (i : Nat) : Bool := IsoBytes.starts (bytes.drop i) 'W'
  if length < 7 then none
  else if length = 7 then some 7
  else if hyphenAt 4 then
    if weekAt 5 then
      if 8 < length ∧ hyphenAt 8 then
        if length = 9 then none
        else if 10 < length ∧ digitAt 10 then some 8
        else some 10
      else some 8
    else some 10
  else if weekAt 4 then
    let run := 7 + ((bytes.drop 7).takeWhile fun b => (IsoBytes.digit? b).isSome).length
    if run < 9 then some run
    else if run % 2 = 0 then some 7
    else some 8
  else some 8

/-- A time of day or an offset while it is read. -/
structure Clock where
  hour : Nat := 0
  minute : Nat := 0
  second : Nat := 0
  microsecond : Nat := 0

/-- The fraction at the front of the bytes, of which `room` belong to the clock. Digits behind
the sixth are dropped. The flag tells whether the text ends there. -/
def readFraction? (bytes : IsoBytes) (room : Nat) (clock : Clock) : Option (Clock × Bool) := do
  let width := min room 6
  let (value, rest) ← IsoBytes.number? width bytes 0
  let rest := rest.dropWhile fun b => (IsoBytes.digit? b).isSome
  some ({ clock with microsecond := value * Nat.pow 10 (6 - width) }, IsoBytes.front rest == 0)

/-- Hours, minutes and seconds from the front of the bytes, of which `room` belong to the clock;
`parts` counts those still to come. The flag tells whether the text ends behind them. -/
def readClock? (bytes : IsoBytes) (room : Int) (separated : Bool) (parts : Nat) (clock : Clock) :
    Option (Clock × Bool) :=
  match parts with
  | 0 => readFraction? bytes room.toNat clock
  | parts + 1 => do
    let (value, rest) ← IsoBytes.number? 2 bytes 0
    let clock : Clock := match parts with
      | 2 => { clock with hour := value }
      | 1 => { clock with minute := value }
      | _ => { clock with second := value }
    let separated := if parts = 2 then IsoBytes.starts rest ':' else separated
    let room := room - 3
    if room ≤ 0 then some (clock, IsoBytes.front rest == 0)
    else if separated && IsoBytes.starts rest ':' then
      readClock? rest.tail room separated parts clock
    else if IsoBytes.starts rest '.' || IsoBytes.starts rest ',' then
      readFraction? rest.tail room.toNat clock
    else if separated then none
    else readClock? rest (room + 1) separated parts clock

/-- Whether a byte begins an offset. -/
def beginsOffset (byte : UInt8) : Bool := byte == 43 || byte == 45 || byte == 90

/-- The time of day and the offset that the bytes write. -/
def readTime? (bytes : IsoBytes) : Option (Clock × Option Int) := do
  let width := (bytes.takeWhile fun b => !beginsOffset b).length
  let zone := bytes.drop width
  let (clock, ended) ← readClock? bytes width true 3 {}
  match zone with
  | [] => if ended then some (clock, none) else none
  | sign :: rest =>
    if sign == 90 then (if IsoBytes.front rest == 0 then some (clock, some 0) else none)
    else
      let (away, ended) ← readClock? rest rest.length true 3 {}
      if ended then
        let seconds := away.hour * 3600 + away.minute * 60 + away.second
        let size : Int := if seconds = 0 then 0 else seconds * 1000000 + away.microsecond
        some (clock, some (if sign == 45 then -size else size))
      else none

/-- How many bytes the character that starts with a given byte takes. -/
def characterWidth (lead : UInt8) : Nat :=
  if lead < 128 then 1
  else if lead &&& 0xF0 == 0xE0 then 3
  else if lead &&& 0xF0 == 0xF0 then 4
  else 2

/-- Microseconds in a day. -/
def dayLength : Nat := 86400000000

/-- All parts in their ranges, the offset being less than a day. -/
def isValid (t : DateTime) : Bool :=
  t.date.isValid && t.hour < 24 && t.minute < 60 && t.second < 60 &&
    (match t.offset with
      | some offset => offset.natAbs < dayLength
      | none => true)

/-- The date-time written by a text; a date alone stands for its midnight. -/
def parse? (s : String) : Option DateTime := do
  let bytes : IsoBytes := s.toUTF8.toList
  let width ← dateWidth? bytes bytes.length
  let date ← Date.readFront? bytes width
  let (clock, offset) ←
    if width < bytes.length then
      let rest := bytes.drop width
      readTime? (rest.drop (characterWidth (IsoBytes.front rest)))
    else some ({}, none)
  let t : DateTime :=
    ⟨date, clock.hour, clock.minute, clock.second, clock.microsecond, offset⟩
  if t.isValid then some t else none

/-- Microseconds, shown only when there are any. -/
def fractionText (microsecond : Nat) : String :=
  if microsecond = 0 then "" else "." ++ Date.padded 6 microsecond

/-- An offset with its sign, hours and minutes, and seconds only when there are any. -/
def offsetText (offset : Int) : String :=
  let size := offset.natAbs
  let seconds := size / 1000000
  let sub := seconds % 60
  (if offset < 0 then "-" else "+") ++ Date.padded 2 (seconds / 3600) ++ ":" ++
    Date.padded 2 (seconds / 60 % 60) ++
    (if sub = 0 ∧ size % 1000000 = 0 then "" else ":" ++ Date.padded 2 sub) ++
    fractionText (size % 1000000)

/-- Date and time with the letter T between them. -/
def toText (t : DateTime) : String :=
  t.date.toText ++ "T" ++ Date.padded 2 t.hour ++ ":" ++ Date.padded 2 t.minute ++ ":" ++
    Date.padded 2 t.second ++ fractionText t.microsecond ++
    (match t.offset with
      | some offset => offsetText offset
      | none => "")

/-- Microseconds since the start of the calendar, by the clock of the date-time itself. -/
def localInstant (t : DateTime) : Int :=
  (t.date.ordinal * 86400 + t.hour * 3600 + t.minute * 60 + t.second) * 1000000 + t.microsecond

/-- Two date-times with offsets agree when they name the same instant, two without when they show
the same clock, and one of each never. -/
def same (a b : DateTime) : Bool :=
  match a.offset, b.offset with
  | some p, some q => a.localInstant - p == b.localInstant - q
  | none, none => a.localInstant == b.localInstant
  | _, _ => false

end DateTime

end HttpContract
