import HttpContract.ModelCheck

/-!
# Making records

A record is made of values for its constructor's names. A plain record takes them as they are; a
model checks them first. Fields that are not given take their defaults, which nobody checks; what a
factory makes for them it makes anew. Last comes the check of order, where a class has one.
-/

namespace HttpContract

namespace Value

mutual

/-- How deep dictionaries are nested in a value. -/
def dictDepth : Value → Nat
  | .list items | .tuple items | .set _ items => dictDepthOfItems items
  | .dict entries => dictDepthOfEntries entries + 1
  | _ => 0

/-- The greatest depth among several values. -/
def dictDepthOfItems : List Value → Nat
  | [] => 0
  | v :: vs => max (dictDepth v) (dictDepthOfItems vs)

/-- The greatest depth among the keys and values of entries. -/
def dictDepthOfEntries : List (Value × Value) → Nat
  | [] => 0
  | (k, v) :: rest => max (max (dictDepth k) (dictDepth v)) (dictDepthOfEntries rest)

end

/-- Whether a value is less than another one of its kind, none when the two have no order. -/
def less? (a b : Value) : Option Bool :=
  match a.asNumber?, b.asNumber? with
  | some m, some n => some (m.less n)
  | _, _ =>
    match a.asText?, b.asText? with
    | some s, some t => some (decide (s < t))
    | _, _ =>
      match a, b with
      | .date d, .date e => some (decide (d.ordinal < e.ordinal))
      | .dateTime t, .dateTime u =>
        match t.offset, u.offset with
        | some p, some q => some (decide (t.localInstant - p < u.localInstant - q))
        | none, none => some (decide (t.localInstant < u.localInstant))
        | _, _ => none
      | _, _ => none

end Value

namespace Classes

/-- The check of order on finished attributes: passed, failed with its message, or impossible. -/
def runOrderCheck (C : Classes) (className : String) (attributes : List (String × Value)) :
    Except Fault Unit :=
  match C.orderCheck? className with
  | none => .ok ()
  | some check =>
    let lesser := (Table.get? check.lesser attributes).getD .null
    let greater := (Table.get? check.greater attributes).getD .null
    match Value.less? lesser greater with
    | some true => .ok ()
    | some false => .error (.checkFailed check.message)
    | none =>
      .error (.misuse
        (s!"'<' not supported between instances of '{lesser.typeName}' and " ++
          s!"'{greater.typeName}'"))

/-- Names in quotes as a complaint about missing arguments lists them. -/
def missingText : List String → String
  | [] => ""
  | [a] => quoted a
  | [a, b] => quoted a ++ " and " ++ quoted b
  | names => commaList ((names.dropLast).map quoted) ++ ", and " ++ quoted (names.getLastD "")

/-- The complaint that arguments of a kind are missing. -/
def missingArguments (owner kind : String) (names : List String) : Fault :=
  let plural := if names.length = 1 then "" else "s"
  .misuse (s!"{owner}.__init__() missing {names.length} required {kind} argument{plural}: " ++
    missingText names)

/-- The class whose constructor a record uses. -/
def constructorOwner (C : Classes) (className : String) : String :=
  ((C.ancestry className).find? fun name => C.hasBody isRecordBody [name]).getD className

/-- The attributes of a plain record. -/
def recordAttributes (C : Classes) (className : String) (values : List (String × Value)) :
    Except Fault (List (String × Value)) := do
  let fields := C.fieldsOf className
  let owner := C.constructorOwner className
  let settable := fields.filter (·.settable)
  match values.find? fun (name, _) => settable.all (·.name ≠ name) with
  | some (name, _) =>
    throw (.misuse s!"{owner}.__init__() got an unexpected keyword argument {quoted name}")
  | none =>
    let missing := settable.filter fun f =>
      f.default.fresh?.isNone && (Table.get? f.name values).isNone
    let positional := (missing.filter (!·.byNameOnly)).map (·.name)
    let byName := (missing.filter (·.byNameOnly)).map (·.name)
    if !positional.isEmpty then throw (missingArguments owner "positional" positional)
    if !byName.isEmpty then throw (missingArguments owner "keyword-only" byName)
    return fields.filterMap fun f =>
      let given := if f.settable then Table.get? f.name values else none
      (given <|> f.default.fresh?).map (f.name, ·)

/-- The name that a model's constructor takes for a field. -/
def modelInitName (spec : FieldSpec) : String := markedName (outerNameOf spec) spec.name

/-- Runs the checks of a model's field on its finished value. -/
def runFloorChecks (value : Value) : List FloorCheck → Except String Unit
  | [] => .ok ()
  | check :: rest =>
    match Value.less? value check.minimum with
    | some true => .error s!"Value error, {check.message}"
    | _ => runFloorChecks value rest

/-- The value of one field of a model. -/
def modelAttribute (C : Classes)
    (build : String → List (Value × Value) → Except String Value) (checks : List FloorCheck)
    (values : List (String × Value)) (spec : FieldSpec) :
    Except (Option String × String) (String × Value) := do
  let key := modelInitName spec
  match Table.get? key values with
  | some given =>
    let rules := (spec.options.map FieldOptions.rules).getD []
    let hint := spec.hint.normal C.isKnown
    let value ← (ModelCheck.value C build rules hint given).mapError (some key, ·)
    (runFloorChecks value (checks.filter (·.field = spec.name))).mapError (some key, ·)
    return (spec.name, value)
  | none =>
    match spec.default.fresh? with
    | some value => return (spec.name, value)
    | none => throw (some key, "Field required")

/-- The attributes of a model, or the name and the wording of the first refusal. -/
def modelAttributes (C : Classes)
    (build : String → List (Value × Value) → Except String Value) (className : String)
    (values : List (String × Value)) :
    Except (Option String × String) (List (String × Value)) := do
  let fields := C.fieldsOf className
  let attributes ← fields.mapM (C.modelAttribute build (C.floorChecks className) values)
  if C.forbidsExtra className then
    match values.find? fun (name, _) => fields.all fun f => modelInitName f ≠ name with
    | some (name, _) => throw (some name, "Extra inputs are not permitted")
    | none => return attributes
  else return attributes

/-- The check of order within a model. -/
def modelOrderCheck (C : Classes) (className : String) (attributes : List (String × Value)) :
    Except (Option String × String) Unit :=
  match C.runOrderCheck className attributes with
  | .error (.checkFailed message) => .error (none, s!"Value error, {message}")
  | _ => .ok ()

/-- A record made from a dictionary inside a model; `depth` bounds how deep dictionaries may be
nested. -/
def buildNested (C : Classes) (depth : Nat) (className : String)
    (entries : List (Value × Value)) : Except String Value :=
  match depth with
  | 0 => .error "Input should be a valid dictionary"
  | depth + 1 =>
    let values := entries.filterMap fun (k, v) => k.asText?.map (·, v)
    let made := do
      let attributes ← C.modelAttributes (C.buildNested depth) className values
      C.modelOrderCheck className attributes
      return Value.record className attributes
    made.mapError (·.2)

/-- The record that a shape's constructor makes of values. Fields of a model may share a name for
the constructor; of the values under such a name the last one counts. A model's refusal is the
client's, and names the field as clients know it. -/
def construct (C : Classes) (shape : Shape) (values : List (String × Value)) :
    Except Failure Value := do
  let name := shape.className
  if C.isModel name then
    let values := Table.ofBindings values
    let depth := Value.dictDepthOfItems (values.map (·.2)) + 1
    let refuse : Option String × String → Failure := fun (key, why) =>
      .refused (key.map shape.wireNameOf) (.byModel why)
    let attributes ←
      (C.modelAttributes (C.buildNested depth) name values).mapError refuse
    match C.runOrderCheck name attributes with
    | .ok () => return .record name attributes
    | .error (.checkFailed message) => throw (refuse (none, s!"Value error, {message}"))
    | .error fault => throw (.fault fault)
  else
    let attributes ← (C.recordAttributes name values).mapError .fault
    (C.runOrderCheck name attributes).mapError .fault
    return .record name attributes

end Classes

end HttpContract
