import HttpContract.Text.Case
import HttpContract.Text.Blank

/-!
# File names

The parts of a path and the suffix of its last part. The suffix of a file tells the format of a
document.
-/

namespace HttpContract

namespace FileName

/-- The parts of a path; those that lead nowhere are dropped. -/
def parts (path : String) : List String :=
  (splitText '/' path).filter fun part => part != "" && part != "."

/-- What an absolute path begins with: one slash, or exactly two. -/
def root (path : String) : String :=
  match (path.toList.takeWhile (· == '/')).length with
  | 0 => ""
  | 2 => "//"
  | _ => "/"

/-- The shortest text of a path that leads through the same parts. -/
def normal (path : String) : String :=
  let text := root path ++ joinTexts "/" (parts path)
  if text.isEmpty then "." else text

/-- The last part of a path. -/
def last (path : String) : String := (parts path).getLastD ""

/-- What follows the last point of the last part, with the point; nothing when the point is the
first or the last character. -/
def suffix (path : String) : String :=
  let cs := (last path).toList
  let tail := cs.reverse.takeWhile (· != '.')
  let before := cs.length - tail.length
  if tail.isEmpty || before ≤ 1 then "" else String.ofList ('.' :: tail.reverse)

/-- Whether a path can only lead to a directory. -/
def isDirectoryName (path : String) : Bool := last path = "" || last path = ".."

/-- Whether a path leads to where it starts, or to a directory above. -/
def staysOrClimbs (path : String) : Bool := !path.isEmpty && (parts path).all (· = "..")

end FileName

/-- The formats that a document is written in. -/
inductive DocumentFormat where
  | json
  | yaml
  deriving DecidableEq, Repr

namespace DocumentFormat

/-- The word for a format. -/
def word : DocumentFormat → String
  | .json => "json"
  | .yaml => "yaml"

/-- The format that the suffix of a file tells. -/
def ofPath (path : String) : DocumentFormat :=
  let suffix := lowerText (FileName.suffix path)
  if suffix = ".yaml" ∨ suffix = ".yml" then .yaml else .json

end DocumentFormat

end HttpContract
