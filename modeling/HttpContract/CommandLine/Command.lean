import HttpContract.CommandLine.Arguments
import HttpContract.CommandLine.FileName
import HttpContract.Dispatch
import HttpContract.Yaml.Writer

/-!
# Commands

Two commands work on the application that a reference names: one writes its document to a file, the
other lists its operations and counts its schemas.
-/

namespace HttpContract

/-- What a reference of the form `module:attribute` names. -/
inductive Loaded where
  | application
  | noModule
  | noAttribute
  | somethingElse
  deriving DecidableEq, Repr

/-- What commands are run among: the directories that exist, and what references name. -/
structure Surroundings where
  isDirectory : String → Bool
  load : (moduleName member : String) → Loaded

/-- A failure that no usage error explains. -/
inductive CommandFault where
  | noModule
  | isDirectory
  deriving DecidableEq, Repr

/-- What a command leaves behind: its exit code, what it printed, and the files it wrote. -/
structure CommandOutcome where
  exitCode : Nat := 0
  output : String := ""
  fault : Option CommandFault := none
  files : List (String × String) := []
  deriving Repr

/-- What a user asks for. -/
inductive Command where
  | nothing
  | help
  | exportDocument (reference path : String) (format : Option DocumentFormat)
  | listOperations (reference : String)
  deriving DecidableEq, Repr

namespace Command

/-- The options of the program itself. -/
def programOptions : List OptionSpec :=
  [⟨some "-v", "--verbose", false⟩, ⟨none, "--help", false⟩]

/-- The options of the command that writes a document. -/
def exportOptions : List OptionSpec :=
  [⟨some "-o", "--output", true⟩, ⟨none, "--format", true⟩, ⟨none, "--app-dir", true⟩,
    ⟨none, "--help", false⟩]

/-- The options of the command that lists operations. -/
def listOptions : List OptionSpec := [⟨none, "--app-dir", true⟩, ⟨none, "--help", false⟩]

/-- The formats that may be asked for; the first leaves the choice to the suffix. -/
def formatChoices : List String := ["auto", "json", "yaml"]

/-- The format that a word asks for. -/
def format? (word : Option String) : Option DocumentFormat :=
  match word with
  | some "json" => some .json
  | some "yaml" => some .yaml
  | _ => none

/-- Refuses a value that an option cannot have. -/
def checkOption (s : Surroundings) (option value : String) : Except UsageError Unit :=
  if option = "--format" ∧ ¬ formatChoices.contains value then
    .error (.notAmong option value formatChoices)
  else if option = "--app-dir" ∧ ¬ s.isDirectory value then .error (.noDirectory option value)
  else .ok ()

/-- Refuses the first option, in the order given, whose last value it cannot have. -/
def checkOptions (s : Surroundings) (a : Arguments) :
    List (String × String) → Except UsageError Unit
  | [] => .ok ()
  | (option, _) :: rest => do
    checkOption s option ((a.value? option).getD "")
    checkOptions s a rest

/-- The one word that a command takes. -/
def reference (a : Arguments) : Except UsageError String :=
  match a.words with
  | [] => .error (.missingArgument "APP_REF")
  | word :: _ => .ok word

/-- Refuses words beyond the first. -/
def checkWords (a : Arguments) : Except UsageError Unit :=
  match a.words.drop 1 with
  | [] => .ok ()
  | words => .error (.tooMany words)

/-- The command that writes a document, from its arguments. -/
def readExport (s : Surroundings) (arguments : List String) : Except UsageError Command := do
  let a ← Arguments.read exportOptions true arguments
  if (a.value? "--help").isSome then return .help
  checkOptions s a a.options
  let ref ← reference a
  match a.value? "--output" with
  | none => throw (.missingOption ["-o", "--output"])
  | some path => do
    checkWords a
    return .exportDocument ref path (format? (a.value? "--format"))

/-- The command that lists operations, from its arguments. -/
def readList (s : Surroundings) (arguments : List String) : Except UsageError Command := do
  let a ← Arguments.read listOptions true arguments
  if (a.value? "--help").isSome then return .help
  checkOptions s a a.options
  let ref ← reference a
  checkWords a
  return .listOperations ref

/-- The command that arguments ask for. No arguments at all ask for nothing; options alone lack a
command. -/
def read (s : Surroundings) (arguments : List String) : Except UsageError Command := do
  if arguments.isEmpty then return .nothing
  let a ← Arguments.read programOptions false arguments
  if (a.value? "--help").isSome then return .help
  match a.words with
  | [] => throw .missingCommand
  | "export" :: rest => readExport s rest
  | "inspect" :: rest => readList s rest
  | name :: _ => throw (.noSuchCommand name)

/-- The two sides of the first colon. -/
def splitReference (text : String) : String × String :=
  let cs := text.toList
  (String.ofList (cs.takeWhile (· != ':')), String.ofList ((cs.dropWhile (· != ':')).drop 1))

/-- What keeps a reference from being used: an outcome that ends the command. -/
def refusal? (s : Surroundings) (text : String) : Option (UsageError ⊕ CommandFault) :=
  let (moduleName, member) := splitReference text
  if moduleName.isEmpty || member.isEmpty then
    some (.inl (.badReference s!"expected 'module:attribute', got {quoted text}"))
  else match s.load moduleName member with
    | .application => none
    | .noModule => some (.inr .noModule)
    | .noAttribute =>
      some (.inl (.badReference
        s!"module {quoted moduleName} has no attribute {quoted member}"))
    | .somethingElse =>
      some (.inl (.badReference s!"{text} is not an OpenAPI application"))

/-- What is printed about how to use the program. -/
def usage : String :=
  joinTexts "\n"
    ["Usage: [OPTIONS] COMMAND [ARGS]...",
      "",
      "Options:",
      "  -v, --verbose  Enable debug logging.",
      "  --help         Show this message and exit.",
      "",
      "Commands:",
      "  export   Write the OpenAPI document of APP_REF (module:attribute) to a file.",
      "  inspect  List the operations and schemas of APP_REF.",
      ""]

/-- The outcome of an error of usage. -/
def failed (e : UsageError) : CommandOutcome := ⟨2, "Error: " ++ e.message ++ "\n", none, []⟩

/-- The outcome of a fault. -/
def broken (fault : CommandFault) : CommandOutcome := ⟨1, "", some fault, []⟩

/-- The outcome of a refused reference. -/
def refused : UsageError ⊕ CommandFault → CommandOutcome
  | .inl e => failed e
  | .inr fault => broken fault

/-- The text of a document in a format. -/
def documentText (format : DocumentFormat) (d : Document) : String :=
  match format with
  | .json => d.toText (some 2)
  | .yaml => Yaml.write d.toJson

/-- A text without blanks at its end. -/
def trimEnd (s : String) : String :=
  String.ofList ((s.toList.reverse.dropWhile isBlank).reverse)

/-- The line of one operation. -/
def operationLine (path method : String) (operation : Operation) : String :=
  let name := (upperText method).toList
  let padded := name ++ List.replicate (7 - name.length) ' '
  trimEnd (String.ofList padded ++ " " ++ path ++ "  " ++ operation.summary.getD "")

/-- The lines of all operations, and the number of schemas. -/
def listing (d : Document) : String :=
  let lines := d.paths.flatMap fun (path, item) =>
    item.documented.map fun (method, operation) => operationLine path method operation
  joinTexts "" ((lines ++ [s!"{d.schemas.length} schemas"]).map (· ++ "\n"))

/-- Writes the document of an application. -/
def writeDocument (app : Application) (path : String) (format : Option DocumentFormat) :
    CommandOutcome × Application :=
  let format := format.getD (.ofPath path)
  let (d, app) := app.document
  if FileName.isDirectoryName path then (broken .isDirectory, app)
  else
    let path := FileName.normal path
    let output := s!"OpenAPI document saved to {path} ({format.word})\n"
    (⟨0, output, none, [(path, documentText format d)]⟩, app)

/-- Runs a command on the application that references can name. -/
def perform (s : Surroundings) (app : Application) : Command → CommandOutcome × Application
  | .nothing => (⟨2, usage, none, []⟩, app)
  | .help => (⟨0, usage, none, []⟩, app)
  | .exportDocument ref path format =>
    match refusal? s ref with
    | some why => (refused why, app)
    | none => writeDocument app path format
  | .listOperations ref =>
    match refusal? s ref with
    | some why => (refused why, app)
    | none =>
      let (d, app) := app.document
      (⟨0, listing d, none, []⟩, app)

/-- Runs the command that arguments ask for. -/
def run (s : Surroundings) (app : Application) (arguments : List String) :
    CommandOutcome × Application :=
  match read s arguments with
  | .error e => (failed e, app)
  | .ok command => perform s app command

end Command

end HttpContract
