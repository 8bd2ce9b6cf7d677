import HttpContract.Json.Basic
import HttpContract.Number.Shortest
import HttpContract.Text.Quoted

/-!
# Writing JSON texts

One writer, steered by a record of choices: what stands between neighbours, whether characters
beyond ASCII are escaped, and how doubles are laid out. Two records are in use, one for bodies
and one for documents.
-/

namespace HttpContract

/-- The choices of a JSON writer. -/
structure JsonStyle where
  /-- Between neighbours on one line. -/
  comma : String
  /-- Between a key and its value. -/
  colon : String
  /-- Escape everything beyond the printable ASCII characters. -/
  asciiOnly : Bool
  /-- The layout of doubles. -/
  floats : FloatLayout
  /-- Spaces per level, when each neighbour has a line of its own. -/
  indent : Option Nat

namespace JsonStyle

/-- Doubles keep two digits in a power of ten, and the words for what is not finite. -/
def bodyFloats : FloatLayout := ⟨-4, 16, 2, "NaN", ("Infinity", "-Infinity")⟩

/-- Doubles write a power of ten with as few digits as it has. -/
def documentFloats : FloatLayout := ⟨-5, 16, 1, "null", ("null", "null")⟩

/-- The style of bodies: blanks behind commas and colons, and nothing beyond ASCII. -/
def body : JsonStyle := ⟨", ", ": ", true, bodyFloats, none⟩

/-- The style of documents: no blanks on one line, and text as it is. -/
def document (indent : Option Nat) : JsonStyle :=
  ⟨",", if indent.isSome then ": " else ":", false, documentFloats, indent⟩

end JsonStyle

namespace Json

/-- A UTF-16 unit as an escape. -/
def unitEscape (unit : Nat) : List Char := '\\' :: 'u' :: Hexadecimal.padded 4 unit

/-- A code as escapes of its UTF-16 units. -/
def codeEscape (code : Nat) : List Char :=
  if code < 0x10000 then unitEscape code
  else
    let rest := code - 0x10000
    unitEscape (0xD800 + rest / 0x400) ++ unitEscape (0xDC00 + rest % 0x400)

/-- One character of a JSON string. -/
def escapeCharacter (asciiOnly : Bool) (c : Char) : List Char :=
  if c = '"' then ['\\', '"']
  else if c = '\\' then ['\\', '\\']
  else if c = '\n' then ['\\', 'n']
  else if c = '\r' then ['\\', 'r']
  else if c = '\t' then ['\\', 't']
  else if c = '\x08' then ['\\', 'b']
  else if c = '\x0c' then ['\\', 'f']
  else if c.toNat < 32 then unitEscape c.toNat
  else if asciiOnly ∧ 126 < c.toNat then codeEscape c.toNat
  else [c]

/-- A JSON string. -/
def writeText (asciiOnly : Bool) (s : String) : String :=
  String.ofList ('"' :: s.toList.flatMap (escapeCharacter asciiOnly) ++ ['"'])

/-- A JSON number. -/
def writeNumber (style : JsonStyle) : Number → String
  | .int n => toString n
  | .float x => style.floats.render x

/-- The start of a line at a level, in front of an item or a closing bracket. -/
def lineStart (style : JsonStyle) (level : Nat) : String :=
  match style.indent with
  | some width => String.ofList ('\n' :: List.replicate (width * level) ' ')
  | none => ""

/-- What separates neighbours at a level. -/
def separator (style : JsonStyle) (level : Nat) : String :=
  match style.indent with
  | some _ => "," ++ lineStart style level
  | none => style.comma

mutual

/-- The text of a value that stands at a level. -/
def writeAt (style : JsonStyle) (level : Nat) : Json → String
  | .null => "null"
  | .bool b => if b then "true" else "false"
  | .number n => writeNumber style n
  | .text s => writeText style.asciiOnly s
  | .array [] => "[]"
  | .array (item :: items) =>
    "[" ++ lineStart style (level + 1) ++ writeAt style (level + 1) item ++
      writeItems style (level + 1) items ++ lineStart style level ++ "]"
  | .object [] => "\x7b\x7d"
  | .object ((key, value) :: members) =>
    "\x7b" ++ lineStart style (level + 1) ++ writeText style.asciiOnly key ++ style.colon ++
      writeAt style (level + 1) value ++ writeMembers style (level + 1) members ++
      lineStart style level ++ "\x7d"

/-- Further items, each with its separator. -/
def writeItems (style : JsonStyle) (level : Nat) : List Json → String
  | [] => ""
  | item :: items =>
    separator style level ++ writeAt style level item ++ writeItems style level items

/-- Further members, each with its separator. -/
def writeMembers (style : JsonStyle) (level : Nat) : List (String × Json) → String
  | [] => ""
  | (key, value) :: members =>
    separator style level ++ writeText style.asciiOnly key ++ style.colon ++
      writeAt style level value ++ writeMembers style level members

end

/-- The text of a value. -/
def write (style : JsonStyle) (value : Json) : String := writeAt style 0 value

/-- The text of a value as a body. -/
def toBodyText (value : Json) : String := value.write JsonStyle.body

end Json

end HttpContract
