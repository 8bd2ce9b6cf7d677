import HttpContract.Text.CaseTable

/-!
# Upper and lower case

The full mappings, in which one character may become several. A capital sigma becomes the
final form at the end of a word.
-/

namespace HttpContract

/-- The one-character lower case form of a character. -/
def simpleLower (c : Char) : Char :=
  let code := c.toNat
  if code < 128 then (if 65 ≤ code ∧ code ≤ 90 then Char.ofNat (code + 32) else c)
  else if code = 0x130 then 'i'
  else Char.ofNat (mapByRuns lowerRuns code)

/-- The lower case form of a character that is not a capital sigma. -/
def lowerOf (c : Char) : List Char :=
  if c.toNat = 0x130 then ['i', Char.ofNat 0x307] else [simpleLower c]

/-- The upper case form of a character. -/
def upperOf (c : Char) : List Char :=
  let code := c.toNat
  if code < 128 then [if 97 ≤ code ∧ code ≤ 122 then Char.ofNat (code - 32) else c]
  else match specialUpper code with
    | [] => [Char.ofNat (mapByRuns upperRuns code)]
    | codes => codes.map Char.ofNat

/-- Whether the first character that is not ignored is a cased letter. -/
def nextIsCased (cs : List Char) : Bool :=
  match cs.dropWhile isCaseIgnorable with
  | c :: _ => isCased c
  | [] => false

/-- The lower case form of `rest`, where `before` holds the characters in front of it, the
nearest first. -/
def lowerFrom (before : List Char) : List Char → List Char
  | [] => []
  | c :: rest =>
    let image :=
      if c.toNat = 0x3A3 then
        [Char.ofNat (if nextIsCased before && !nextIsCased rest then 0x3C2 else 0x3C3)]
      else lowerOf c
    image ++ lowerFrom (c :: before) rest

/-- A text in lower case. -/
def lowerText (s : String) : String := String.ofList (lowerFrom [] s.toList)

/-- A text in upper case. -/
def upperText (s : String) : String := String.ofList (s.toList.flatMap upperOf)

end HttpContract
