import HttpContract.CommandLine.Similarity
import HttpContract.Text.Quoted
import HttpContract.Text.Blank

/-!
# Arguments

Arguments are options and words. An option has long and short names; its value follows as the next
argument, behind an equals sign, or right behind a short name. Two dashes end the options.
-/

namespace HttpContract

/-- Why arguments cannot be used. -/
inductive UsageError where
  | noSuchOption (name : String) (similar : List String)
  | valueNeeded (name : String)
  | noValueTaken (name : String)
  | missingOption (names : List String)
  | missingArgument (name : String)
  | missingCommand
  | notAmong (option value : String) (choices : List String)
  | noDirectory (option path : String)
  | tooMany (words : List String)
  | noSuchCommand (name : String)
  | badReference (why : String)
  deriving DecidableEq, Repr

namespace UsageError

/-- The hint at similar options. -/
def hint (similar : List String) : String :=
  match similar with
  | [] => ""
  | [name] => s!" Did you mean {name}?"
  | names =>
    let sorted := names.mergeSort fun a b => decide (a ≤ b)
    " (Possible options: " ++ joinTexts ", " sorted ++ ")"

/-- The wording of an error. -/
def message : UsageError → String
  | .noSuchOption name similar => s!"No such option: {name}" ++ hint similar
  | .valueNeeded name => s!"Option {quoted name} requires an argument."
  | .noValueTaken name => s!"Option {quoted name} does not take a value."
  | .missingOption names => "Missing option " ++ joinTexts " / " (names.map quoted) ++ "."
  | .missingArgument name => s!"Missing argument {quoted name}."
  | .missingCommand => "Missing command."
  | .notAmong option value choices =>
    s!"Invalid value for {quoted option}: {quoted value} is not one of " ++
      joinTexts ", " (choices.map quoted) ++ "."
  | .noDirectory option path =>
    s!"Invalid value for {quoted option}: Directory {quoted path} does not exist."
  | .tooMany [word] => s!"Got unexpected extra argument ({word})"
  | .tooMany words => "Got unexpected extra arguments (" ++ joinTexts " " words ++ ")"
  | .noSuchCommand name => s!"No such command {quoted name}."
  | .badReference why => s!"Invalid value for APP_REF: {why}"

end UsageError

/-- An option: its short and long names, and whether it has a value. -/
structure OptionSpec where
  short : Option String := none
  long : String
  takesValue : Bool
  deriving DecidableEq, Repr

/-- Arguments in parts: the options by their long names with their values in order, and the words
besides. -/
structure Arguments where
  options : List (String × String) := []
  words : List String := []
  deriving DecidableEq, Repr

namespace Arguments

/-- The value of an option: the last one given. -/
def value? (a : Arguments) (long : String) : Option String :=
  ((a.options.filter (·.1 = long)).getLast?).map (·.2)

/-- The option of a long name. -/
def findLong (specs : List OptionSpec) (name : String) : Option OptionSpec :=
  specs.find? (·.long = name)

/-- The option of a short name. -/
def findShort (specs : List OptionSpec) (name : String) : Option OptionSpec :=
  specs.find? (·.short = some name)

/-- What one argument says: options with their values, and perhaps one more option, with the name
used for it, whose value is the next argument. -/
abbrev Reading := List (String × String) × Option (OptionSpec × String)

/-- Reads short options that stand behind one dash. -/
def readShort (specs : List OptionSpec) : List Char → Except UsageError Reading
  | [] => .ok ([], none)
  | c :: rest =>
    let name := String.ofList ['-', c]
    match findShort specs name with
    | none => .error (.noSuchOption name [])
    | some spec =>
      if spec.takesValue then
        if rest.isEmpty then .ok ([], some (spec, name))
        else .ok ([(spec.long, String.ofList rest)], none)
      else
        (readShort specs rest).map fun (options, waiting) =>
          ((spec.long, "") :: options, waiting)

/-- Reads an argument that begins with a dash. -/
def readOption (specs : List OptionSpec) (argument : String) : Except UsageError Reading :=
  let cs := argument.toList
  let name := String.ofList (cs.takeWhile (· != '='))
  let attached := if cs.contains '=' then
      some (String.ofList ((cs.dropWhile (· != '=')).drop 1))
    else none
  match findLong specs name with
  | some spec =>
    match attached, spec.takesValue with
    | some value, true => .ok ([(spec.long, value)], none)
    | none, true => .ok ([], some (spec, name))
    | some _, false => .error (.noValueTaken name)
    | none, false => .ok ([(spec.long, "")], none)
  | none =>
    if ['-', '-'].isPrefixOf cs then
      .error (.noSuchOption name (Similarity.closeTo name (specs.map (·.long))))
    else readShort specs (cs.drop 1)

/-- Whether an argument is to be read as an option. -/
def isOption (argument : String) : Bool :=
  ['-'].isPrefixOf argument.toList && 1 < argument.length

/-- Reads arguments, `waiting` being an option whose value comes next. With `mixed` words may stand
between options; otherwise all that follows the first word is a word. -/
def readFrom (specs : List OptionSpec) (mixed : Bool) (waiting : Option (OptionSpec × String)) :
    List String → Except UsageError Arguments
  | [] =>
    match waiting with
    | some (_, name) => .error (.valueNeeded name)
    | none => .ok {}
  | argument :: rest =>
    match waiting with
    | some (spec, _) => do
      let others ← readFrom specs mixed none rest
      return { others with options := (spec.long, argument) :: others.options }
    | none =>
      if argument = "--" then .ok { words := rest }
      else if isOption argument then do
        let (options, waiting) ← readOption specs argument
        let others ← readFrom specs mixed waiting rest
        return { others with options := options ++ others.options }
      else if mixed then do
        let others ← readFrom specs mixed none rest
        return { others with words := argument :: others.words }
      else .ok { words := argument :: rest }

/-- Reads arguments by the options that are known. -/
def read (specs : List OptionSpec) (mixed : Bool) (arguments : List String) :
    Except UsageError Arguments :=
  readFrom specs mixed none arguments

end Arguments

end HttpContract
