import HttpContract.Json.Bytes
import HttpContract.Text.Case
import HttpContract.Value.Equality

/-!
# Settings

What a document says about itself and where it is served. A setting is given in code or by a
variable of the environment; what is given in code counts more, and the two tables of tags are laid
over each other.
-/

namespace HttpContract

/-- The settings of one document. -/
structure Settings where
  title : String := "API"
  version : String := "1.0.0"
  description : Option String := none
  openapiVersion : String := "3.0.3"
  servesDocument : Bool := true
  documentPath : String := "/openapi.json"
  servesPage : Bool := true
  pagePath : String := "/swagger-ui"
  pageVersion : String := "5.30.3"
  servers : List String := []
  /-- Descriptions of tags by name. -/
  tags : List (String × String) := []
  deriving DecidableEq, Repr

/-- Why settings cannot be read. -/
inductive SettingsFault where
  /-- A name that is no setting, or a value of the wrong type. -/
  | invalid (name : String)
  /-- A variable that should hold JSON and does not. -/
  | unreadable (name : String)
  deriving DecidableEq, Repr

namespace Settings

/-- The names of all settings in order, and whether the variable of each holds JSON. -/
def names : List (String × Bool) :=
  [("title", false), ("version", false), ("description", false), ("openapi_version", false),
    ("serve_openapi_json", false), ("openapi_path", false), ("serve_docs", false),
    ("docs_path", false), ("swagger_ui_version", false), ("servers", true), ("tags", true)]

/-- What the names of variables begin with. Their case does not matter. -/
def variablePrefix : String := "routespec_"

/-- The text of the variable of a setting; of several spellings the last counts. -/
def textOfVariable? (environment : List (String × String)) (name : String) : Option String :=
  ((environment.filter fun (n, _) => lowerText n = variablePrefix ++ name).getLast?).map (·.2)

/-- The settings that the environment gives, in order. -/
def fromEnvironment (environment : List (String × String)) :
    List (String × Bool) → Except SettingsFault (List (String × Value))
  | [] => .ok []
  | (name, holdsJson) :: rest =>
    match textOfVariable? environment name with
    | none => fromEnvironment environment rest
    | some text => do
      let value ←
        if holdsJson then
          match (Payload.text text).readJson Json.usualRoom with
          | .ok j => .ok (Value.ofJson j)
          | .error _ => .error (.unreadable name)
        else .ok (.text text)
      let others ← fromEnvironment environment rest
      match value with
      | .null => return others
      | value => return (name, value) :: others

/-- A value laid over another one: of two dictionaries the entries, of all else the upper one. -/
def overlay (lower upper : Value) : Value :=
  match lower, upper with
  | .dict below, .dict above =>
    .dict (above.foldl (fun entries (key, value) => Value.setEntry key value entries) below)
  | _, upper => upper

/-- Values by name laid over others. -/
def overlayAll (lower upper : Table String Value) : Table String Value :=
  upper.foldl
    (fun table (name, value) =>
      table.update name fun
        | some below => overlay below value
        | none => value)
    lower

/-- The truth value that a word stands for, in any case. -/
def wordTruth? (word : String) : Option Bool :=
  let word := String.ofList (word.toList.map Char.toLower)
  if ["1", "true", "t", "yes", "y", "on"].contains word then some true
  else if ["0", "false", "f", "no", "n", "off"].contains word then some false
  else none

/-- The truth value that a value stands for: itself, a number that is 0 or 1, or a word. -/
def truth? (value : Value) : Option Bool :=
  match value.asNumber?, value.asText? with
  | some n, _ =>
    if n.same (.int 1) then some true else if n.same (.int 0) then some false else none
  | none, some word => wordTruth? word
  | none, none => none

/-- The items of a value that has items. -/
def items? : Value → Option (List Value)
  | .list items | .tuple items | .set _ items => some items
  | _ => none

/-- The texts that a value lists. -/
def texts? (value : Value) : Option (List String) := do
  (← items? value).mapM Value.asText?

/-- The texts by name that a value lists. -/
def table? : Value → Option (List (String × String))
  | .dict entries => entries.mapM fun (key, value) => do return (← key.asText?, ← value.asText?)
  | _ => none

/-- A text, or nothing for the null value. -/
def textOrNull? : Value → Option (Option String)
  | .null => some none
  | value => value.asText?.map some

/-- The settings with one set by name. -/
def set? (s : Settings) (name : String) (value : Value) : Option Settings :=
  match name with
  | "title" => value.asText?.map fun title => { s with title }
  | "version" => value.asText?.map fun version => { s with version }
  | "description" => (textOrNull? value).map fun description => { s with description }
  | "openapi_version" => value.asText?.map fun openapiVersion => { s with openapiVersion }
  | "serve_openapi_json" => (truth? value).map fun servesDocument => { s with servesDocument }
  | "openapi_path" => value.asText?.map fun documentPath => { s with documentPath }
  | "serve_docs" => (truth? value).map fun servesPage => { s with servesPage }
  | "docs_path" => value.asText?.map fun pagePath => { s with pagePath }
  | "swagger_ui_version" => value.asText?.map fun pageVersion => { s with pageVersion }
  | "servers" => (texts? value).map fun servers => { s with servers }
  | "tags" => (table? value).map fun tags => { s with tags }
  | _ => none

/-- The settings with several set by name. -/
def setEach (s : Settings) : List (String × Value) → Except SettingsFault Settings
  | [] => .ok s
  | (name, value) :: rest =>
    match s.set? name value with
    | some s => setEach s rest
    | none => .error (.invalid name)

/-- The settings that the given values and the environment make. -/
def read (given : List (String × Value)) (environment : List (String × String)) :
    Except SettingsFault Settings := do
  let lower ← fromEnvironment environment names
  setEach {} (overlayAll lower given)

/-- All settings by name, in order. -/
def toJson (s : Settings) : Json :=
  .object
    [("title", .text s.title), ("version", .text s.version),
      ("description", (s.description.map Json.text).getD .null),
      ("openapi_version", .text s.openapiVersion), ("serve_openapi_json", .bool s.servesDocument),
      ("openapi_path", .text s.documentPath), ("serve_docs", .bool s.servesPage),
      ("docs_path", .text s.pagePath), ("swagger_ui_version", .text s.pageVersion),
      ("servers", .array (s.servers.map .text)),
      ("tags", .object (s.tags.map fun (name, description) => (name, .text description)))]

end Settings

end HttpContract
