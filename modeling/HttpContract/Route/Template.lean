import HttpContract.Text.Blank

/-!
# Path templates

A template is a path with variables in braces. A variable stands for one or more characters other
than a slash, as many as the rest of the template allows. The end of a template also matches before
a line feed that ends the path.
-/

namespace HttpContract

/-- A part of a template. -/
inductive TemplatePart where
  | letter (c : Char)
  | capture (name : List Char)
  deriving DecidableEq, Repr

/-- A path template by its parts. -/
abbrev Template := List TemplatePart

namespace Template

/-- Whether a character can stand in the name of a variable. -/
def isNameCharacter (c : Char) : Bool := c != '\x7b' && c != '\x7d' && c != '/'

/-- The name of a variable whose opening brace stands right before, with the number of
characters up to and with the closing brace. -/
def variableBehind? (cs : List Char) : Option (List Char × Nat) :=
  let name := cs.takeWhile isNameCharacter
  if name.isEmpty then none
  else match cs[name.length]? with
    | some '\x7d' => some (name, name.length + 1)
    | _ => none

/-- The parts of a template, the first `skip` characters having been read with the part before. -/
def parseFrom (skip : Nat) : List Char → Template
  | [] => []
  | c :: rest =>
    match skip with
    | skip + 1 => parseFrom skip rest
    | 0 =>
      if c = '\x7b' then
        match variableBehind? rest with
        | some (name, width) => .capture name :: parseFrom width rest
        | none => .letter c :: parseFrom 0 rest
      else .letter c :: parseFrom 0 rest

/-- The parts of a template. -/
def parse (s : String) : Template := parseFrom 0 s.toList

/-- The names of the variables, in order. -/
def names (t : Template) : List String :=
  t.filterMap fun
    | .capture name => some (String.ofList name)
    | .letter _ => none

/-- What the variables stand for when a path has the form of a template: for each the most that the
rest of the template allows. -/
def valuesIn : Template → List Char → Option (List (List Char))
  | [], path => if path.isEmpty || path == ['\n'] then some [] else none
  | .letter c :: parts, path =>
    match path with
    | [] => none
    | d :: rest => if c = d then valuesIn parts rest else none
  | .capture _ :: parts, path =>
    let longest := (path.takeWhile (· != '/')).length
    (List.range longest).reverse.findSome? fun (n : Nat) =>
      (valuesIn parts (path.drop (n + 1))).map (path.take (n + 1) :: ·)

/-- What the variables stand for in a path of the form of a template. -/
def match? (t : Template) (path : String) : Option (List String) :=
  (t.valuesIn path.toList).map fun values => values.map String.ofList

/-- Every variable stands for something. -/
theorem length_of_valuesIn {t : Template} {path : List Char} {values : List (List Char)}
    (h : t.valuesIn path = some values) : values.length = t.names.length := by
  induction t generalizing path values with
  | nil =>
    rw [valuesIn] at h
    split at h
    · simp_all [names]
    · simp at h
  | cons part parts ih =>
    cases part with
    | letter c =>
      cases path with
      | nil => simp [valuesIn] at h
      | cons d rest =>
        rw [valuesIn] at h
        split at h
        · simpa [names] using ih h
        · simp at h
    | capture name =>
      rw [valuesIn] at h
      obtain ⟨n, _, hn⟩ := List.exists_of_findSome?_eq_some h
      obtain ⟨others, ho, rfl⟩ := Option.map_eq_some_iff.1 hn
      simpa [names] using ih ho

end Template

/-- A path without slashes at either end. -/
def trimSlashes (path : String) : List Char := stripBoth (· == '/') path.toList

/-- A path below another one: one slash in front, one between the two, and none at the end. -/
def joinPaths (first second : String) : String :=
  let parts := [trimSlashes first, trimSlashes second].filter (!·.isEmpty)
  "/" ++ joinTexts "/" (parts.map String.ofList)

end HttpContract
