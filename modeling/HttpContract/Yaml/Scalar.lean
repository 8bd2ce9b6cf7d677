import HttpContract.Json.Writer
import HttpContract.Pattern.Matcher

/-!
# YAML scalars

A text is written plainly where YAML reads it back as that text, otherwise between single quotes,
and between double quotes where only escapes can express it. Lines longer than the width are broken
at single blanks, in double quotes also behind escapes.
-/

namespace HttpContract

namespace Yaml

/-- Lines are broken once they are longer than this. -/
def width : Nat := 80

/-- Whether a character ends a line. -/
def isBreak (c : Char) : Bool :=
  c = '\n' || c.toNat = 0x85 || c.toNat = 0x2028 || c.toNat = 0x2029

/-- Whether a character separates words. -/
def isGap (c : Char) : Bool :=
  isBreak c || c = ' ' || c = '\t' || c = '\r' || c.toNat = 0

/-- Whether a character must be escaped, whatever surrounds it. -/
def isSpecial (c : Char) : Bool :=
  let code := c.toNat
  !(c = '\n' || (0x20 ≤ code && code ≤ 0x7E) || code = 0x85 ||
    (0xA0 ≤ code && code < 0x10FFFF && code ≠ 0xFEFF && code ≠ 0xFFFE && code ≠ 0xFFFF))

/-- Whether a character cannot begin a plain text. -/
def isIndicator (c : Char) : Bool :=
  "#,[]\x7b\x7d&*!|>'\"%@`".toList.contains c

/-- Whether neighbours satisfy `p` somewhere in a list. -/
def anyNeighbours (p : Char → Char → Bool) (cs : List Char) : Bool :=
  (cs.zip (cs.drop 1)).any fun (a, b) => p a b

/-- Whether a text holds something with a meaning of its own in YAML: an indicator in front, a colon
before a gap, or a number sign behind one. -/
def hasIndicators (cs : List Char) : Bool :=
  let beforeGap (c : Char) := (cs.zip (cs.drop 1 ++ [' '])).any fun (a, b) => a = c && isGap b
  let opening (c : Char) := cs.head? = some c && ((cs[1]?).all isGap)
  ['-', '-', '-'].isPrefixOf cs || ['.', '.', '.'].isPrefixOf cs ||
    cs.head?.any isIndicator || opening '?' || opening '-' || beforeGap ':' ||
    anyNeighbours (fun a b => isGap a && b = '#') cs

/-- Whether a character is a blank or ends a line. -/
def isEdge (c : Char) : Bool := c = ' ' || isBreak c

/-- Whether a text that is not empty can be written without quotes. -/
def plainAllowed (cs : List Char) : Bool :=
  !cs.head?.any isEdge && !cs.getLast?.any isEdge && !cs.any isBreak && !cs.any isSpecial &&
    !hasIndicators cs

/-- Whether a text can be written between single quotes: nothing is special, and blanks do not
meet line ends. -/
def singleAllowed (cs : List Char) : Bool :=
  !cs.any isSpecial &&
    !anyNeighbours (fun a b => (isBreak a && b = ' ') || (a = ' ' && isBreak b)) cs

/-- The plain texts that YAML reads as something other than text: truth values, doubles, integers,
merge keys, null values, times and default values. -/
def otherReadings : List String :=
  ["^(?:yes|Yes|YES|no|No|NO|true|True|TRUE|false|False|FALSE|on|On|ON|off|Off|OFF)$",
    "^(?:[-+]?(?:[0-9][0-9_]*)\\.[0-9_]*(?:[eE][-+][0-9]+)?|" ++
      "\\.[0-9][0-9_]*(?:[eE][-+][0-9]+)?|" ++
      "[-+]?[0-9][0-9_]*(?::[0-5]?[0-9])+\\.[0-9_]*|" ++
      "[-+]?\\.(?:inf|Inf|INF)|\\.(?:nan|NaN|NAN))$",
    "^(?:[-+]?0b[0-1_]+|[-+]?0[0-7_]+|[-+]?(?:0|[1-9][0-9_]*)|[-+]?0x[0-9a-fA-F_]+|" ++
      "[-+]?[1-9][0-9_]*(?::[0-5]?[0-9])+)$",
    "^<<$",
    "^(?:~|null|Null|NULL|)$",
    "^(?:[0-9][0-9][0-9][0-9]-[0-9][0-9]-[0-9][0-9]|" ++
      "[0-9][0-9][0-9][0-9]-[0-9][0-9]?-[0-9][0-9]?(?:[Tt]|[ \\t]+)" ++
      "[0-9][0-9]?:[0-9][0-9]:[0-9][0-9](?:\\.[0-9]*)?" ++
      "(?:[ \\t]*(?:Z|[-+][0-9][0-9]?(?::[0-9][0-9])?))?)$",
    "^=$"]

/-- Whether a plain text is read back as text. -/
def readsAsText (s : String) : Bool := !otherReadings.any fun regex => matchesRegex regex s true

/-- How a text is written. -/
inductive ScalarStyle where
  | plain
  | single
  | double
  deriving DecidableEq, Repr

/-- The style of a text; `isKey` tells a key that stands on one line with its value. -/
def styleOf (s : String) (isKey : Bool) : ScalarStyle :=
  let cs := s.toList
  if !cs.isEmpty && plainAllowed cs && readsAsText s then .plain
  else if singleAllowed cs && !(isKey && cs.any isBreak) then .single
  else .double

/-- The kinds of characters that runs are made of. -/
inductive RunKind where
  | word
  | blank
  | lineEnd
  deriving DecidableEq

/-- The kind of a character. -/
def RunKind.of (c : Char) : RunKind :=
  if c = ' ' then .blank else if isBreak c then .lineEnd else .word

/-- A list of characters cut into runs of one kind. -/
def runs (cs : List Char) : List (List Char) :=
  cs.splitBy fun a b => RunKind.of a = RunKind.of b

/-- A line feed and the indentation behind it. -/
def newLine (indent : Nat) : List Char := '\n' :: List.replicate indent ' '

/-- A run of words with single quotes doubled. -/
def doubleQuotes (run : List Char) : List Char :=
  run.flatMap fun c => if c = '\'' then ['\'', '\''] else [c]

/-- Runs that stand at a column. A single blank within the text is replaced by a line break when
the line is too long, and a line end is written once more than it occurs. -/
def writeRuns (folds : Bool) (indent column : Nat) (isFirst : Bool) :
    List (List Char) → List Char
  | [] => []
  | run :: rest =>
    match run.head?.map RunKind.of with
    | some .lineEnd =>
      let ends := if run.head? = some '\n' then '\n' :: run else run
      ends ++ List.replicate indent ' ' ++ writeRuns folds indent indent false rest
    | some .blank =>
      if run.length = 1 && width < column && folds && !isFirst && !rest.isEmpty then
        newLine indent ++ writeRuns folds indent indent false rest
      else run ++ writeRuns folds indent (column + run.length) false rest
    | _ =>
      let shown := doubleQuotes run
      shown ++ writeRuns folds indent (column + shown.length) false rest

/-- Words that stand at a column, a single blank being replaced by a line break when the line is
too long. -/
def writeWords (folds : Bool) (indent column : Nat) : List (List Char) → List Char
  | [] => []
  | run :: rest =>
    if run = [' '] && width < column && folds then
      newLine indent ++ writeWords folds indent indent rest
    else run ++ writeWords folds indent (column + run.length) rest

/-- The escapes that have a letter. -/
def escapeLetter? (c : Char) : Option Char :=
  match c.toNat with
  | 0x00 => some '0'
  | 0x07 => some 'a'
  | 0x08 => some 'b'
  | 0x09 => some 't'
  | 0x0A => some 'n'
  | 0x0B => some 'v'
  | 0x0C => some 'f'
  | 0x0D => some 'r'
  | 0x1B => some 'e'
  | 0x22 => some '"'
  | 0x5C => some '\\'
  | 0x85 => some 'N'
  | 0xA0 => some '_'
  | 0x2028 => some 'L'
  | 0x2029 => some 'P'
  | _ => none

/-- Upper case hexadecimal digits filled with zeros up to a width. -/
def upperHex (digits n : Nat) : List Char := (Hexadecimal.padded digits n).map Char.toUpper

/-- A character as it is escaped in double quotes. -/
def escaped (c : Char) : List Char :=
  match escapeLetter? c with
  | some letter => ['\\', letter]
  | none =>
    let code := c.toNat
    if code ≤ 0xFF then '\\' :: 'x' :: upperHex 2 code
    else if code ≤ 0xFFFF then '\\' :: 'u' :: upperHex 4 code
    else '\\' :: 'U' :: upperHex 8 code

/-- Whether a character is escaped in double quotes. -/
def isEscaped (c : Char) : Bool :=
  let code := c.toNat
  c = '"' || c = '\\' || code = 0x2028 || code = 0x2029 || code = 0xFEFF ||
    !((0x20 ≤ code && code ≤ 0x7E) || (0xA0 ≤ code && code ≤ 0xFFFD))

/-- The rest of a text in double quotes at a column. A line that is too long is broken in front of
a blank, or behind an escape; a blank that then begins a line is escaped. `afterEscape` tells that
nothing but escapes and breaks stand between the column and the last escape. -/
def writeEscapes (folds : Bool) (indent column : Nat) (isFirst afterEscape : Bool) :
    List Char → List Char
  | [] => []
  | c :: rest =>
    let mayFold := folds && !isFirst && !rest.isEmpty
    let guarded (next : Option Char) : List Char := if next = some ' ' then ['\\'] else []
    if isEscaped c then
      let shown := escaped c
      let column := column + shown.length
      if mayFold && width + 1 < column then
        let guard := guarded rest.head?
        shown ++ '\\' :: newLine indent ++ guard ++
          writeEscapes folds indent (indent + guard.length) false true rest
      else shown ++ writeEscapes folds indent column false true rest
    else if mayFold && (c = ' ' || afterEscape) && width < column then
      let guard := guarded (some c)
      '\\' :: newLine indent ++ guard ++
        c :: writeEscapes folds indent (indent + guard.length + 1) false false rest
    else c :: writeEscapes folds indent (column + 1) false false rest

/-- A text in a style, starting at a column. Further lines begin at the indentation, and there are
none unless the text may be folded. -/
def writeText (style : ScalarStyle) (folds : Bool) (indent column : Nat) (s : String) :
    List Char :=
  let cs := s.toList
  match style with
  | .plain => writeWords folds indent column (runs cs)
  | .single => '\'' :: writeRuns folds indent (column + 1) true (runs cs) ++ ['\'']
  | .double => '"' :: writeEscapes folds indent (column + 1) true true cs ++ ['"']

/-- Doubles have a point in front of a power of ten. -/
def floats : FloatLayout := ⟨-4, 16, 2, ".nan", (".inf", "-.inf")⟩

/-- A point in front of the power of ten, when there is none. -/
def withPoint (cs : List Char) : List Char :=
  if cs.contains '.' || !cs.contains 'e' then cs
  else cs.takeWhile (· != 'e') ++ '.' :: '0' :: cs.dropWhile (· != 'e')

/-- A number. -/
def writeNumber : Number → List Char
  | .int n => (toString n).toList
  | .float x => withPoint (floats.render x).toList

end Yaml

end HttpContract
