import HttpContract.Text.Hexadecimal
import HttpContract.Text.Blank
import HttpContract.Text.WordCharacter

/-!
# Universally unique identifiers

A 128-bit number. The reader drops the marks that decorate an identifier and takes what is left
as one hexadecimal number of 32 characters, in the liberal notation of integers.
-/

namespace HttpContract

/-- A 128-bit identifier. -/
structure Uuid where
  value : Nat
  deriving DecidableEq, Repr, Inhabited

namespace Uuid

/-- The list without the occurrences of `word`, taken from the left; `skip` characters belong to
an occurrence found before. -/
def removeAll (word : List Char) : Nat → List Char → List Char
  | _, [] => []
  | skip + 1, _ :: rest => removeAll word skip rest
  | 0, c :: rest =>
    if word.isPrefixOf (c :: rest) then removeAll word (word.length - 1) rest
    else c :: removeAll word 0 rest

/-- Hexadecimal digits with single underscores between them. -/
def hexNumber? (value : Nat) (afterDigit : Bool) : List Char → Option Nat
  | [] => if afterDigit then some value else none
  | '_' :: rest => if afterDigit then hexNumber? value false rest else none
  | c :: rest =>
    match Hexadecimal.value? c with
    | some d => hexNumber? (16 * value + d) true rest
    | none => none

/-- The white space that may surround a number once other blanks have become spaces. -/
def isNumberSpace (c : Char) : Bool := c == ' ' || (9 ≤ c.toNat && c.toNat ≤ 13)

/-- A text with digits and blanks of other scripts replaced by plain ones; a text without such
characters stays as it is. -/
def plainDigits (cs : List Char) : List Char :=
  cs.map fun c =>
    if c.toNat < 127 then c
    else if isBlank c then ' '
    else match digitValue? c with
      | some d => Char.ofNat (48 + d)
      | none => '?'

/-- A hexadecimal number with optional space around it, plus sign and base mark. -/
def hexText? (cs : List Char) : Option Nat :=
  let cs := stripBoth isNumberSpace (plainDigits cs)
  let cs := match cs with
    | '+' :: rest => rest
    | _ => cs
  match cs with
  | '0' :: 'x' :: '_' :: rest | '0' :: 'X' :: '_' :: rest => hexNumber? 0 false rest
  | '0' :: 'x' :: rest | '0' :: 'X' :: rest => hexNumber? 0 false rest
  | _ => hexNumber? 0 false cs

/-- The identifier written by a text. -/
def parse? (s : String) : Option Uuid :=
  let cs := removeAll "uuid:".toList 0 (removeAll "urn:".toList 0 s.toList)
  let cs := (stripBoth (fun c => c == '\x7b' || c == '\x7d') cs).filter (· != '-')
  if cs.length = 32 then
    match hexText? cs with
    | some value => if value < Nat.pow 2 128 then some ⟨value⟩ else none
    | none => none
  else none

/-- 32 hexadecimal digits in groups of 8, 4, 4, 4 and 12. -/
def toText (u : Uuid) : String :=
  let all := Hexadecimal.padded 32 u.value
  let group (start width : Nat) := String.ofList ((all.drop start).take width)
  joinTexts "-" [group 0 8, group 8 4, group 12 4, group 16 4, group 20 12]

end Uuid

end HttpContract
