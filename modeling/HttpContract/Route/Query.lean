import HttpContract.Table
import HttpContract.Text.Hexadecimal
import HttpContract.Text.Encoding
import HttpContract.Text.Blank

/-!
# Percent-encoded texts

A percent sign with two hexadecimal digits stands for a byte, and the bytes of a stretch of ASCII
are read as UTF-8. A percent sign without digits stays, and so do characters beyond ASCII. A query
is a sequence of pairs joined with `&`, in which a plus sign stands for a blank.
-/

namespace HttpContract

namespace Percent

/-- The bytes of ASCII text in which a percent sign with two digits stands for a byte. -/
def bytesOf : List Char → List UInt8
  | [] => []
  | '%' :: a :: b :: rest =>
    match Hexadecimal.value? a, Hexadecimal.value? b with
    | some high, some low => UInt8.ofNat (16 * high + low) :: bytesOf rest
    | _, _ => 37 :: bytesOf (a :: b :: rest)
  | c :: rest => UInt8.ofNat c.toNat :: bytesOf rest

/-- Whether a character is in the range of ASCII. -/
def isAscii (c : Char) : Bool := c.toNat < 128

/-- A list of characters cut wherever ASCII begins or ends. -/
def stretches (cs : List Char) : List (List Char) :=
  cs.splitBy fun a b => isAscii a == isAscii b

/-- What a stretch of ASCII, or one without any, stands for. -/
def decodeStretch (cs : List Char) : List Char :=
  if cs.all isAscii then Utf8.decodeLenient 0 (bytesOf cs) else cs

/-- What a percent-encoded text stands for. -/
def decode (s : String) : String :=
  String.ofList ((stretches s.toList).flatMap decodeStretch)

end Percent

namespace Query

/-- The two sides of the first equals sign; without one the second side is empty. -/
def splitPair (cs : List Char) : List Char × List Char :=
  (cs.takeWhile (· != '='), (cs.dropWhile (· != '=')).drop 1)

/-- What a name or a value of a query stands for. -/
def decodePart (cs : List Char) : String :=
  Percent.decode (String.ofList (cs.map fun c => if c = '+' then ' ' else c))

/-- Texts by name with one more text under a name. -/
def addText (name text : String) (table : Table String (List String)) :
    Table String (List String) :=
  table.update name fun texts => texts.getD [] ++ [text]

/-- The texts that a query gives under each name, names in the order of their first use. -/
def parse (s : String) : Table String (List String) :=
  let pairs := (splitAtEach '&' s.toList).filter (!·.isEmpty)
  pairs.foldl
    (fun table cs =>
      let (name, value) := splitPair cs
      addText (decodePart name) (decodePart value) table)
    []

end Query

end HttpContract
