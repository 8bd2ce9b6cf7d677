import HttpContract.Binding.Conversion

/-!
# Parameters from raw values

A request offers texts under names. A parser makes one value of those under its own name, or
finds that the request has none.
-/

namespace HttpContract

/-- The texts that a part of a request offers, by name. -/
abbrev RawValues := Table String (List String)

namespace RawValues

/-- The texts under a name; no texts are the same as no name. -/
def get? (raw : RawValues) (name : String) : Option (List String) :=
  match Table.get? name raw with
  | some [] | none => none
  | some texts => some texts

end RawValues

/-- How a parameter is laid out in a request. -/
inductive ParameterStyle where
  | form
  | simple
  | deepObject
  deriving DecidableEq, Repr

/-- The word for a style. -/
def ParameterStyle.text : ParameterStyle → String
  | .form => "form"
  | .simple => "simple"
  | .deepObject => "deepObject"

/-- Reads one text as a value under constraints. -/
structure ScalarParser where
  type : Binding.ParameterType
  constraints : List Constraint
  /-- Whether an empty text means that there is no value. -/
  allowEmpty : Bool
  deriving Repr

/-- Reads texts as one value: the first of them, or all of them as items of a container. -/
inductive FlatParser where
  | scalar (item : ScalarParser) (style : ParameterStyle) (explode : Bool)
  | list (container : Container) (item : ScalarParser) (style : ParameterStyle) (explode : Bool)
  deriving Repr

namespace ScalarParser

/-- The value of one text under a name, none when the text is empty and may be. -/
def parseOne (C : Classes) (p : ScalarParser) (name text : String) :
    Except Failure (Option Value) :=
  if text.isEmpty && p.type != .scalar .text then
    if p.allowEmpty then .ok none else .error (.refused (some name) .empty)
  else
    match Binding.convert? C p.type text with
    | none => .error (.refused (some name) (.unreadable text))
    | some v => (applyConstraints p.constraints v name).map some

/-- The values of several texts under a name. -/
def parseEach (C : Classes) (p : ScalarParser) (name : String) :
    List String → Except Failure (List Value)
  | [] => .ok []
  | text :: rest => do
    let v ← p.parseOne C name text
    let vs ← parseEach C p name rest
    return v.toList ++ vs

end ScalarParser

namespace FlatParser

/-- The style of a parser. -/
def style : FlatParser → ParameterStyle
  | .scalar _ style _ | .list _ _ style _ => style

/-- Whether each item has a text of its own. -/
def explode : FlatParser → Bool
  | .scalar _ _ explode | .list _ _ _ explode => explode

/-- The items of texts: the texts themselves, or what stands between their commas. -/
def itemsOf (explode : Bool) (texts : List String) : List String :=
  if explode then texts
  else texts.flatMap fun text => (splitText ',' text).map trimBlanks

/-- The value under a name, none when the request has no value. -/
def build (C : Classes) (p : FlatParser) (name : String) (raw : RawValues) :
    Except Failure (Option Value) :=
  match raw.get? name with
  | none => .ok none
  | some texts =>
    match p with
    | .scalar item _ _ =>
      match texts with
      | [] => .ok none
      | text :: _ => item.parseOne C name text
    | .list container item _ explode => do
      let items ← item.parseEach C name (itemsOf explode texts)
      return some (← Body.contain C container items)

end FlatParser

namespace Binding

/-- The style and the separation of scalars and arrays, by location. -/
def styleAt : Location → ParameterStyle × Bool
  | .query => (.form, true)
  | .header | .path => (.simple, false)

/-- The parser of a scalar or of an array of scalars, none for other types. -/
def flatParser? (f : Field) (location : Location) (allowEmpty : Bool) : Option FlatParser :=
  let (style, explode) := styleAt location
  match f.type with
  | .array container item _ notes =>
    (parameterType? item).map fun type =>
      .list container ⟨type, constraintsIn notes ++ item.constraints, allowEmpty⟩ style explode
  | type =>
    (parameterType? type).map fun scalar =>
      .scalar ⟨scalar, f.constraints, allowEmpty⟩ style explode

end Binding

end HttpContract
