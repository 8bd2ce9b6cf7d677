import HttpContract.Json.Basic
import HttpContract.Number.DecimalText
import HttpContract.Text.Hexadecimal
import HttpContract.Text.Blank

/-!
# Reading JSON texts

The reader takes the grammar of JSON together with the constants for not a number and the
infinities. Every refusal names its problem and the place where it was seen. Arrays and objects are
entered one inside the other as long as there is room, which is not part of the grammar.
-/

namespace HttpContract

/-- What is wrong with a JSON text. -/
inductive JsonProblem where
  | expectingValue
  | expectingProperty
  | expectingColon
  | expectingComma
  | extraData
  | unterminatedString
  | invalidControl
  | invalidEscape
  | invalidUnicodeEscape
  | byteOrderMark
  deriving DecidableEq, Repr

/-- The wording of a problem. -/
def JsonProblem.message : JsonProblem → String
  | .expectingValue => "Expecting value"
  | .expectingProperty => "Expecting property name enclosed in double quotes"
  | .expectingColon => "Expecting ':' delimiter"
  | .expectingComma => "Expecting ',' delimiter"
  | .extraData => "Extra data"
  | .unterminatedString => "Unterminated string starting at"
  | .invalidControl => "Invalid control character at"
  | .invalidEscape => "Invalid \\escape"
  | .invalidUnicodeEscape => "Invalid \\uXXXX escape"
  | .byteOrderMark => "Unexpected UTF-8 BOM (decode using utf-8-sig)"

/-- A form of JSON value that has others inside. -/
inductive Nesting where
  | array
  | object
  deriving DecidableEq, Repr

/-- The word for a form of nesting. -/
def Nesting.text : Nesting → String
  | .array => "array"
  | .object => "object"

/-- Why a text is not read: a problem at a position, an integer of too many digits, or an array or
object that there is no room to enter. -/
inductive JsonFault where
  | at (problem : JsonProblem) (position : Nat)
  | tooManyDigits (count : Nat)
  | tooNested (form : Nesting)
  deriving DecidableEq, Repr

/-- The text still to be read and the position of its first character. -/
structure JsonCursor where
  rest : List Char
  position : Nat

namespace JsonCursor

/-- The cursor `count` characters further. -/
def skip (c : JsonCursor) (count : Nat) : JsonCursor := ⟨c.rest.drop count, c.position + count⟩

/-- A refusal at the cursor. -/
def refuse {α : Type} (c : JsonCursor) (problem : JsonProblem) : Except JsonFault α :=
  .error (.at problem c.position)

/-- Whether a text stands at the cursor. -/
def startsWith (c : JsonCursor) (word : String) : Bool := word.toList.isPrefixOf c.rest

/-- The cursor behind the white space of JSON. -/
def afterSpace (c : JsonCursor) : JsonCursor :=
  c.skip (c.rest.takeWhile fun x => x == ' ' || x == '\t' || x == '\n' || x == '\r').length

end JsonCursor

namespace Json

open DecimalText

/-- The number written by four hexadecimal digits at the front. -/
def hexQuad? (cs : List Char) : Option Nat :=
  match cs with
  | a :: b :: c :: d :: _ =>
    [a, b, c, d].foldlM (fun n digit => (Hexadecimal.value? digit).map (16 * n + ·)) 0
  | _ => none

/-- The character that a letter behind a backslash stands for. -/
def simpleEscape? : Char → Option Char
  | '"' => some '"'
  | '\\' => some '\\'
  | '/' => some '/'
  | 'b' => some '\x08'
  | 'f' => some '\x0c'
  | 'n' => some '\n'
  | 'r' => some '\r'
  | 't' => some '\t'
  | _ => none

/-- A character escape at the cursor, which stands on the letter behind `\u`: the code and how
many characters it takes. A high surrogate takes the low one that follows it along. -/
def readCode (c : JsonCursor) : Except JsonFault (Nat × Nat) :=
  if c.rest.length < 5 then .error (.at .invalidUnicodeEscape (c.position - 1))
  else match hexQuad? c.rest with
    | none => .error (.at .invalidUnicodeEscape (c.position - 1))
    | some high =>
      match (c.rest.drop 4), decide (0xD800 ≤ high ∧ high < 0xDC00 ∧ 10 < c.rest.length) with
      | '\\' :: 'u' :: more, true =>
        match hexQuad? more with
        | none => .error (.at .invalidUnicodeEscape (c.position + 5))
        | some low =>
          if 0xDC00 ≤ low ∧ low < 0xE000 then
            .ok (0x10000 + (high - 0xD800) * 0x400 + (low - 0xDC00), 10)
          else .ok (high, 4)
      | _, _ => .ok (high, 4)

/-- The character with a code; the replacement character for a lone surrogate. -/
def charOfCode (code : Nat) : Char :=
  if 0xD800 ≤ code ∧ code < 0xE000 then '\ufffd' else Char.ofNat code

/-- The text up to the closing quote and the cursor behind it. `start` is the position of the
opening quote, and `done` the characters read so far, the last first. -/
def readString (fuel start : Nat) (done : List Char) (c : JsonCursor) :
    Except JsonFault (String × JsonCursor) :=
  match fuel with
  | 0 => .error (.at .unterminatedString start)
  | fuel + 1 =>
    match c.rest with
    | [] => .error (.at .unterminatedString start)
    | '"' :: _ => .ok (String.ofList done.reverse, c.skip 1)
    | '\\' :: [] => .error (.at .unterminatedString start)
    | '\\' :: 'u' :: _ =>
      match readCode (c.skip 2) with
      | .error fault => .error fault
      | .ok (code, width) => readString fuel start (charOfCode code :: done) (c.skip (2 + width))
    | '\\' :: letter :: _ =>
      match simpleEscape? letter with
      | some x => readString fuel start (x :: done) (c.skip 2)
      | none => c.refuse .invalidEscape
    | x :: _ =>
      if x.toNat < 32 then c.refuse .invalidControl
      else readString fuel start (x :: done) (c.skip 1)

/-- A fraction at the front: a point with at least one digit behind it. -/
def fractionRun (cs : List Char) : List Char :=
  match cs with
  | '.' :: rest => digitRun rest
  | _ => []

/-- The number at the cursor and the cursor behind it. -/
def readNumber (c : JsonCursor) : Except JsonFault (Json × JsonCursor) :=
  let (negative, body) := match c.rest with
    | '-' :: rest => (true, rest)
    | rest => (false, rest)
  let whole := match body with
    | '0' :: _ => ['0']
    | _ => digitRun body
  if whole.isEmpty then c.refuse .expectingValue
  else
    let signWidth := if negative then 1 else 0
    let behind := body.drop whole.length
    let fraction := fractionRun behind
    let fractionWidth := if fraction.isEmpty then 0 else fraction.length + 1
    let (powerWidth, powerNegative, power) := powerRun (behind.drop fractionWidth)
    let next := c.skip (signWidth + whole.length + fractionWidth + powerWidth)
    if fractionWidth = 0 ∧ powerWidth = 0 then
      if Number.digitLimit < whole.length then .error (.tooManyDigits whole.length)
      else
        let n : Int := natOfDigits whole
        .ok (.int (if negative then -n else n), next)
    else
      let p : Int := natOfDigits power
      let exponent := (if powerNegative then -p else p) - fraction.length
      .ok (.number (.float (Double.ofDecimal negative (natOfDigits (whole ++ fraction)) exponent)),
        next)

/-- The constants that are written as words. -/
def constants : List (String × Json) :=
  [("null", .null), ("true", .bool true), ("false", .bool false), ("NaN", .number (.float .nan)),
    ("Infinity", .number (.float (.infinite false))),
    ("-Infinity", .number (.float (.infinite true)))]

/-- How many arrays and objects are entered one inside the other, when nothing else is said. -/
def usualRoom : Nat := 960

mutual

/-- The value at the cursor and the cursor behind it. -/
def readValue (fuel room : Nat) (c : JsonCursor) : Except JsonFault (Json × JsonCursor) :=
  match fuel with
  | 0 => c.refuse .expectingValue
  | fuel + 1 =>
    match c.rest, room with
    | '"' :: rest, _ => do
      let (s, c) ← readString (rest.length + 1) c.position [] (c.skip 1)
      return (.text s, c)
    | '\x7b' :: _, 0 => .error (.tooNested .object)
    | '\x7b' :: _, room + 1 =>
      let inside := (c.skip 1).afterSpace
      if inside.startsWith "\x7d" then .ok (.object [], inside.skip 1)
      else do
        let (members, c) ← readMembers fuel room inside []
        return (.object members, c)
    | '[' :: _, 0 => .error (.tooNested .array)
    | '[' :: _, room + 1 =>
      let inside := (c.skip 1).afterSpace
      if inside.startsWith "]" then .ok (.array [], inside.skip 1)
      else do
        let (items, c) ← readItems fuel room inside
        return (.array items, c)
    | _, _ =>
      match constants.find? fun (word, _) => c.startsWith word with
      | some (word, value) => .ok (value, c.skip word.length)
      | none => readNumber c

/-- The items of an array from the cursor on, and the cursor behind the closing bracket. -/
def readItems (fuel room : Nat) (c : JsonCursor) : Except JsonFault (List Json × JsonCursor) :=
  match fuel with
  | 0 => c.refuse .expectingValue
  | fuel + 1 => do
    let (item, c) ← readValue fuel room c
    let c := c.afterSpace
    match c.rest with
    | ']' :: _ => return ([item], c.skip 1)
    | ',' :: _ =>
      let (items, c) ← readItems fuel room (c.skip 1).afterSpace
      return (item :: items, c)
    | _ => c.refuse .expectingComma

/-- The members of an object from the cursor on, added to those read before, and the cursor
behind the closing brace. -/
def readMembers (fuel room : Nat) (c : JsonCursor) (before : List (String × Json)) :
    Except JsonFault (List (String × Json) × JsonCursor) :=
  match fuel with
  | 0 => c.refuse .expectingProperty
  | fuel + 1 =>
    match c.rest with
    | '"' :: rest => do
      let (key, c) ← readString (rest.length + 1) c.position [] (c.skip 1)
      let c := c.afterSpace
      if !c.startsWith ":" then c.refuse .expectingColon
      let (value, c) ← readValue fuel room (c.skip 1).afterSpace
      let c := c.afterSpace
      let members := Table.set key value before
      match c.rest with
      | '\x7d' :: _ => return (members, c.skip 1)
      | ',' :: _ => readMembers fuel room (c.skip 1).afterSpace members
      | _ => c.refuse .expectingComma
    | _ => c.refuse .expectingProperty

end

/-- The value that a text denotes, with white space around it, when there is room for `room` arrays
and objects one inside the other. -/
def read (room : Nat) (cs : List Char) : Except JsonFault Json :=
  if ['\ufeff'].isPrefixOf cs then .error (.at .byteOrderMark 0)
  else do
    let (value, c) ← readValue (2 * cs.length + 2) room (JsonCursor.afterSpace ⟨cs, 0⟩)
    let c := c.afterSpace
    if c.rest.isEmpty then return value
    else c.refuse .extraData

end Json

/-- The wording of an array or object that there is no room to enter. -/
def Nesting.message (form : Nesting) : String :=
  s!"maximum recursion depth exceeded while decoding a JSON {form.text} from a unicode string"

/-- The wording of a fault in a given text, with line, column and position. -/
def JsonFault.message (cs : List Char) : JsonFault → String
  | .at problem position =>
    let before := cs.take position
    let line := before.count '\n' + 1
    let column := (before.reverse.takeWhile (· != '\n')).length + 1
    s!"{problem.message}: line {line} column {column} (char {position})"
  | .tooManyDigits count => Number.overlongText count
  | .tooNested form => form.message

end HttpContract
