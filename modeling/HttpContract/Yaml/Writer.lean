import HttpContract.Yaml.Scalar

/-!
# Writing YAML

A JSON value in block style. Members stand below each other, a sequence below a key is not indented,
and a key that is too long, empty or of several lines has a question mark in front and its value on
a line of its own.
-/

namespace HttpContract

namespace Yaml

/-- Keys on one line with their value are shorter than this, their quotes not counted. -/
def longestKey : Nat := 123

/-- Whether a key stands on one line with its value. -/
def isSimpleKey (key : String) : Bool :=
  let cs := key.toList
  !cs.isEmpty && cs.length < longestKey && !cs.any isBreak

/-- What stands between an indicator and a collection: a blank, or a new line where the collection
belongs to a simple key. -/
def lead (inLine : Bool) (indent : Nat) : List Char := if inLine then [' '] else newLine indent

/-- Lines at an indentation, the first one standing where it is. -/
def stacked (indent : Nat) (lines : List (List Char)) : List Char :=
  (newLine indent).intercalate lines

mutual

/-- A value behind an indicator that ends at a column, within a collection of an indentation.
`inLine` tells that a collection may begin on the same line. -/
def writeValue (indent column : Nat) (inLine : Bool) : Json → List Char
  | .null => " null".toList
  | .bool b => if b then " true".toList else " false".toList
  | .number n => ' ' :: writeNumber n
  | .text s => ' ' :: writeText (styleOf s false) true (indent + 2) (column + 1) s
  | .array items =>
    let inner := if inLine then indent + 2 else indent
    if items.isEmpty then " []".toList
    else lead inLine inner ++ stacked inner (writeItems inner items)
  | .object members =>
    let inner := indent + 2
    if members.isEmpty then " \x7b\x7d".toList
    else lead inLine inner ++ stacked inner (writeMembers inner members)

/-- The items of a sequence. -/
def writeItems (indent : Nat) : List Json → List (List Char)
  | [] => []
  | item :: items => ('-' :: writeValue indent (indent + 1) true item) :: writeItems indent items

/-- The members of a mapping. -/
def writeMembers (indent : Nat) : List (String × Json) → List (List Char)
  | [] => []
  | (key, value) :: members =>
    let entry :=
      if isSimpleKey key then
        let shown := writeText (styleOf key true) false (indent + 2) indent key
        shown ++ ':' :: writeValue indent (indent + shown.length + 1) false value
      else
        '?' :: ' ' :: writeText (styleOf key false) true (indent + 2) (indent + 2) key ++
          newLine indent ++ ':' :: writeValue indent (indent + 1) true value
    entry :: writeMembers indent members

end

/-- The text of a value as a YAML document. -/
def write : Json → String
  | .object (member :: members) =>
    String.ofList (stacked 0 (writeMembers 0 (member :: members)) ++ ['\n'])
  | value => String.ofList ((writeValue 0 0 true value).drop 1 ++ ['\n'])

end Yaml

end HttpContract
