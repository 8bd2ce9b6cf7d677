import HttpContract.Value.Basic
import HttpContract.Number.Shortest
import HttpContract.Text.Quoted

/-!
# Showing values in messages

The text that a message shows for a value: texts in quotes, collections with their brackets, and
truth values and the null value by their names. A value that stands alone as a text, such as the
key of a dictionary, is shown without quotes. Integers of too many digits have no text.
-/

namespace HttpContract

/-- Doubles keep two digits in a power of ten. -/
def messageFloats : FloatLayout := ⟨-4, 16, 2, "nan", ("inf", "-inf")⟩

/-- A number in a message. -/
def Number.toText : Number → String
  | .int n => toString n
  | .float x => messageFloats.render x

/-- A truth value in a message. -/
def boolText (b : Bool) : String := if b then "True" else "False"

/-- Bytes between quotes, those beyond printable ASCII by their codes. -/
def bytesText (data : List UInt8) : String :=
  let cs := data.map fun b => Char.ofNat b.toNat
  let quote := Quoted.quoteFor cs
  let shown := cs.flatMap fun c =>
    if 127 ≤ c.toNat then '\\' :: 'x' :: Hexadecimal.padded 2 c.toNat else Quoted.escape quote c
  String.ofList ('b' :: quote :: shown ++ [quote])

/-- Texts with commas between them. -/
def commaList (texts : List String) : String := joinTexts ", " texts

/-- A list of texts between brackets. -/
def textList (texts : List String) : String := "[" ++ commaList (texts.map quoted) ++ "]"

namespace Value

/-- The parts of a date as a message shows them. -/
def dateParts (d : Date) : List String := [toString d.year, toString d.month, toString d.day]

/-- A date-time in a message. -/
def dateTimeText (t : DateTime) : String :=
  let fraction := if t.microsecond = 0 then [] else [toString t.microsecond]
  let seconds :=
    if t.second = 0 ∧ t.microsecond = 0 then [] else toString t.second :: fraction
  let zone := match t.offset with
    | none => []
    | some 0 => ["tzinfo=datetime.timezone.utc"]
    | some offset =>
      let days := Int.fdiv offset 86400000000
      let rest := offset - days * 86400000000
      let second := rest / 1000000
      let part (name : String) (n : Int) : List String :=
        if n = 0 then [] else [name ++ "=" ++ toString n]
      let delta := commaList
        (part "days" days ++ part "seconds" second ++ part "microseconds" (rest % 1000000))
      ["tzinfo=datetime.timezone(datetime.timedelta(" ++ delta ++ "))"]
  "datetime.datetime(" ++
    commaList (dateParts t.date ++ [toString t.hour, toString t.minute] ++ seconds ++ zone) ++ ")"

mutual

/-- A value as a message shows it. -/
def display : Value → String
  | .null => "None"
  | .bool b => boolText b
  | .number n => n.toText
  | .text s => quoted s
  | .list items => "[" ++ commaList (displayItems items) ++ "]"
  | .tuple [] => "()"
  | .tuple [item] => "(" ++ display item ++ ",)"
  | .tuple (item :: items) => "(" ++ commaList (display item :: displayItems items) ++ ")"
  | .set false [] => "set()"
  | .set true [] => "frozenset()"
  | .set false (item :: items) =>
    "\x7b" ++ commaList (display item :: displayItems items) ++ "\x7d"
  | .set true (item :: items) =>
    "frozenset(\x7b" ++ commaList (display item :: displayItems items) ++ "\x7d)"
  | .dict entries => "\x7b" ++ commaList (displayEntries entries) ++ "\x7d"
  | .uuid u => "UUID(" ++ quoted u.toText ++ ")"
  | .date d => "datetime.date(" ++ commaList (dateParts d) ++ ")"
  | .dateTime t => dateTimeText t
  | .member e n _ v => "<" ++ e ++ "." ++ n ++ ": " ++ display v ++ ">"
  | .record c attributes => c ++ "(" ++ commaList (displayAttributes attributes) ++ ")"
  | .decimal t => "Decimal(" ++ quoted t ++ ")"
  | .bytes data => bytesText data
  | .opaqueObject => "<object object>"

/-- Values as a message shows them. -/
def displayItems : List Value → List String
  | [] => []
  | item :: items => display item :: displayItems items

/-- The entries of a dictionary as a message shows them. -/
def displayEntries : List (Value × Value) → List String
  | [] => []
  | (k, v) :: entries => (display k ++ ": " ++ display v) :: displayEntries entries

/-- The attributes of a record as a message shows them. -/
def displayAttributes : List (String × Value) → List String
  | [] => []
  | (n, v) :: attributes => (n ++ "=" ++ display v) :: displayAttributes attributes

end

mutual

/-- Whether a message can show a value: whether all integers in it can be written. -/
def isWritable : Value → Bool
  | .number n => n.isWritable
  | .list items | .tuple items | .set _ items => itemsWritable items
  | .dict entries => entriesWritable entries
  | .member _ _ _ v => isWritable v
  | .record _ attributes => attributesWritable attributes
  | _ => true

/-- Whether all items can be shown. -/
def itemsWritable : List Value → Bool
  | [] => true
  | item :: items => isWritable item && itemsWritable items

/-- Whether all entries of a dictionary can be shown. -/
def entriesWritable : List (Value × Value) → Bool
  | [] => true
  | (k, v) :: entries => isWritable k && isWritable v && entriesWritable entries

/-- Whether all attributes of a record can be shown. -/
def attributesWritable : List (String × Value) → Bool
  | [] => true
  | (_, v) :: attributes => isWritable v && attributesWritable attributes

end

/-- A value that stands alone as a text. -/
def plainText : Value → String
  | .text s => s
  | .uuid u => u.toText
  | .date d => d.toText
  | .dateTime t =>
    String.ofList (t.toText.toList.map fun c => if c = 'T' then ' ' else c)
  | .member e n .plain _ | .member e n .text _ => e ++ "." ++ n
  | .member _ _ .integer v => v.display
  | .decimal t => t
  | v => v.display

/-- Whether a value has a text of its own. -/
def hasText : Value → Bool
  | .member _ _ .plain _ | .member _ _ .text _ => true
  | v => v.isWritable

/-- The name of the type of a value, as messages show it. -/
def typeName : Value → String
  | .null => "NoneType"
  | .bool _ => "bool"
  | .number (.int _) => "int"
  | .number (.float _) => "float"
  | .text _ => "str"
  | .list _ => "list"
  | .tuple _ => "tuple"
  | .set false _ => "set"
  | .set true _ => "frozenset"
  | .dict _ => "dict"
  | .uuid _ => "UUID"
  | .date _ => "date"
  | .dateTime _ => "datetime"
  | .member e _ _ _ => e
  | .record c _ => c
  | .decimal _ => "Decimal"
  | .bytes _ => "bytes"
  | .opaqueObject => "object"

end Value

/-- The name of the type of a JSON value, as messages show it. -/
def Json.typeName (j : Json) : String := (Value.ofJson j).typeName

/-- A JSON value as a message shows it. -/
def Json.display (j : Json) : String := (Value.ofJson j).display

/-- Whether all integers in a JSON value can be written. -/
def Json.isWritable (j : Json) : Bool := (Value.ofJson j).isWritable

end HttpContract
