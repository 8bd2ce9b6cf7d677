import HttpContract.Number.DecimalText
import HttpContract.Shape

/-!
# Values checked by models

A model checks the values it is made of against the types of its fields, on its own account and
more liberally than a body does: it converts where little is lost. The first value that it
cannot take decides its answer.
-/

namespace HttpContract

namespace ModelCheck

/-- A number as a refusal shows it, without a power of ten and without a trailing zero. -/
def boundText : Number → String
  | .int n => toString n
  | .float x =>
    let shown := (FloatLayout.mk (-400) 400 1 "NaN" ("inf", "-inf")).render x
    if shown.endsWith ".0" then (shown.dropEnd 2).toString else shown

/-- The plural ending for a count. -/
def plural (n : Int) : String := if n = 1 then "" else "s"

/-- Refuses a number that a rule excludes. -/
def checkNumber (n : Number) : FieldRule → Except String Unit
  | .le bound =>
    if bound.less n then .error s!"Input should be less than or equal to {boundText bound}"
    else .ok ()
  | .lt bound =>
    if n.less bound then .ok () else .error s!"Input should be less than {boundText bound}"
  | .ge bound =>
    if n.less bound then .error s!"Input should be greater than or equal to {boundText bound}"
    else .ok ()
  | .gt bound =>
    if bound.less n then .ok () else .error s!"Input should be greater than {boundText bound}"
  | .multipleOf bound =>
    match n.position?, bound.position? with
    | some (0, p), some (0, q) =>
      if q != 0 && (p / q).den == 1 then .ok ()
      else .error s!"Input should be a multiple of {boundText bound}"
    | _, _ => .ok ()
  | .general _ (some false) _ _ =>
    match n with
    | .float x => if x.isFinite then .ok () else .error "Input should be a finite number"
    | .int _ => .ok ()
  | _ => .ok ()

/-- Refuses a text that a rule excludes. -/
def checkText (s : String) : FieldRule → Except String Unit
  | .minLength bound =>
    if (s.length : Int) < bound then
      .error s!"String should have at least {bound} character{plural bound}"
    else .ok ()
  | .maxLength bound =>
    if bound < (s.length : Int) then
      .error s!"String should have at most {bound} character{plural bound}"
    else .ok ()
  | .general (some (regex, compiled)) _ _ _ =>
    if matchesRegex regex s !compiled then .ok ()
    else .error s!"String should match pattern '{regex}'"
  | _ => .ok ()

/-- Refuses a collection whose size a rule excludes. -/
def checkSize (kind : String) (size : Nat) : FieldRule → Except String Unit
  | .minLength bound =>
    if (size : Int) < bound then
      .error
        s!"{kind} should have at least {bound} item{plural bound} after validation, not {size}"
    else .ok ()
  | .maxLength bound =>
    if bound < (size : Int) then
      .error s!"{kind} should have at most {bound} item{plural bound} after validation, not {size}"
    else .ok ()
  | _ => .ok ()

/-- Applies a check for each rule in order. -/
def checkAll (check : FieldRule → Except String Unit) : List FieldRule → Except String Unit
  | [] => .ok ()
  | rule :: rest => do
    check rule
    checkAll check rest

/-- The rules in the order in which numbers are checked. -/
def numberOrder (rules : List FieldRule) : List FieldRule :=
  let rank : FieldRule → Nat
    | .general .. => 0
    | .multipleOf _ => 1
    | .le _ => 2
    | .lt _ => 3
    | .ge _ => 4
    | _ => 5
  (List.range 6).flatMap fun i => rules.filter fun r => rank r == i

/-- The integer that a text writes, surrounding blanks, single underscores between digits and a
fraction of zeros aside. -/
def integerText? (s : String) : Option Int :=
  let (negative, cs) := DecimalText.splitSign (stripBoth isBlank s.toList)
  let whole := cs.takeWhile (· != '.')
  let fraction := cs.drop (whole.length + 1)
  let pieces := splitAtEach '_' whole
  if pieces.all (fun p => !p.isEmpty && p.all Char.isDigit) && fraction.all (· == '0') &&
      (cs.length == whole.length || !fraction.isEmpty) then
    let n : Int := DecimalText.natOfDigits (whole.filter Char.isDigit)
    some (if negative then -n else n)
  else none

/-- The double that a text writes in decimal notation or by a word, surrounding blanks aside. -/
def doubleText? (s : String) : Option Double :=
  let (negative, cs) := DecimalText.splitSign (stripBoth isBlank s.toList)
  let word := (String.ofList cs).toLower
  if word == "inf" || word == "infinity" then some (.infinite negative)
  else if word == "nan" then some .nan
  else DecimalText.double? negative cs

/-- An integer, converted from a truth value, a whole double or a text unless only integers are
taken. -/
def toInteger (strict : Bool) (v : Value) : Except String Int :=
  let plain := "Input should be a valid integer"
  match v with
  | .number (.int n) => .ok n
  | .member _ _ .integer (.number (.int n)) => .ok n
  | .bool b => if strict then .error plain else .ok (if b then 1 else 0)
  | .number (.float x) =>
    if strict then .error plain
    else if !x.isFinite then .error "Input should be a finite number"
    else match x.toInt? with
      | some n => .ok n
      | none => .error (plain ++ ", got a number with a fractional part")
  | .text s =>
    if strict then .error plain
    else match integerText? s with
      | some n => .ok n
      | none => .error (plain ++ ", unable to parse string as an integer")
  | _ => .error plain

/-- A double, converted from an integer, and unless only numbers are taken from a truth value or a
text. -/
def toDouble (strict : Bool) (v : Value) : Except String Double :=
  let plain := "Input should be a valid number"
  match v with
  | .number (.float x) => .ok x
  | .number (.int n) | .member _ _ .integer (.number (.int n)) =>
    match Double.ofInt? n with
    | some x => .ok x
    | none => .error plain
  | .bool b =>
    if strict then .error plain
    else .ok ((Double.ofInt? (if b then 1 else 0)).getD (.zero false))
  | .text s =>
    if strict then .error plain
    else match doubleText? s with
      | some x => .ok x
      | none => .error (plain ++ ", unable to parse string as a number")
  | _ => .error plain

/-- The words that stand for truth and for falsehood. -/
def truthWords : List (List String) :=
  [["0", "off", "f", "false", "n", "no"], ["1", "on", "t", "true", "y", "yes"]]

/-- A truth value, converted from 0 and 1 and from words unless only truth values are taken. -/
def toBool (strict : Bool) (v : Value) : Except String Bool :=
  let plain := "Input should be a valid boolean"
  let unclear := plain ++ ", unable to interpret input"
  match v with
  | .bool b => .ok b
  | .number n =>
    if strict then .error plain
    else if n.same (.int 0) then .ok false
    else if n.same (.int 1) then .ok true
    else .error unclear
  | .text s =>
    if strict then .error plain
    else
      let word := s.toLower
      if (truthWords.getD 0 []).contains word then .ok false
      else if (truthWords.getD 1 []).contains word then .ok true
      else .error unclear
  | _ => .error plain

/-- Alternatives in a refusal: commas, and "or" before the last. -/
def alternativesText : List String → String
  | [] => ""
  | [s] => s
  | [s, t] => s ++ " or " ++ t
  | s :: rest => s ++ ", " ++ alternativesText rest

/-- The member of an enumeration that a value is, or whose value it equals. -/
def toMember (strict : Bool) (name : String) (e : Enumeration) (v : Value) :
    Except String Value :=
  let listed := alternativesText (e.members.map fun (_, value) => value.display)
  match v with
  | .member n _ _ _ =>
    if n = name then .ok v else .error s!"Input should be {listed}"
  | _ =>
    if strict then .error s!"Input should be an instance of {name}"
    else match e.members.find? fun (_, value) => value.same v with
      | some (n, value) => .ok (.member name n e.mixin value)
      | none => .error s!"Input should be {listed}"

/-- A value of a scalar type. -/
def toScalar (strict : Bool) (rules : List FieldRule) (type : Builtin) (v : Value) :
    Except String Value :=
  match type with
  | .text =>
    match v.asText? with
    | some s => do
      checkAll (checkText s) rules
      return .text s
    | none => .error "Input should be a valid string"
  | .integer => do
    let n ← toInteger strict v
    checkAll (checkNumber (.int n)) (numberOrder rules)
    return .int n
  | .number => do
    let x ← toDouble strict v
    checkAll (checkNumber (.float x)) (numberOrder rules)
    return .float x
  | .boolean => return .bool (← toBool strict v)
  | .uuid =>
    match v with
    | .uuid _ => .ok v
    | .text s =>
      match strict, Uuid.parse? s with
      | false, some u => .ok (.uuid u)
      | _, _ => .error "Input should be a valid UUID"
    | _ => .error "UUID input should be a string, bytes or UUID object"
  | .date =>
    match v with
    | .date _ => .ok v
    | .dateTime t =>
      if strict then .error "Input should be a valid date"
      else if t.hour = 0 ∧ t.minute = 0 ∧ t.second = 0 ∧ t.microsecond = 0 then .ok (.date t.date)
      else .error "Datetimes provided to dates should have zero time - e.g. be exact dates"
    | .text s =>
      match strict, Date.parse? s with
      | false, some d => .ok (.date d)
      | _, _ => .error "Input should be a valid date or datetime"
    | _ => .error "Input should be a valid date"
  | .dateTime =>
    match v with
    | .dateTime _ => .ok v
    | .date d =>
      if strict then .error "Input should be a valid datetime"
      else .ok (.dateTime ⟨d, 0, 0, 0, 0, none⟩)
    | .text s =>
      match strict, DateTime.parse? s with
      | false, some t => .ok (.dateTime t)
      | _, _ => .error "Input should be a valid datetime or date"
    | _ => .error "Input should be a valid datetime"
  | .bytes =>
    match v with
    | .bytes _ => .ok v
    | _ => .error "Input should be a valid bytes"
  | .decimal =>
    match v with
    | .decimal _ => .ok v
    | _ => .error "Input should be an instance of Decimal"
  | .complex | .object => .ok v

/-- The items of a value that is taken for a collection of a given type. -/
def itemsFor (strict : Bool) (type : Collection) (v : Value) : Except String (List Value) :=
  let refusal := match type with
    | .list => "Input should be a valid list"
    | .tuple => "Input should be a valid tuple"
    | .set | .abstractSet => "Input should be a valid set"
    | .frozenset => "Input should be a valid frozenset"
    | .sequence => "Input should be an instance of Sequence"
  match type, strict, v with
  | .list, _, .list items | .tuple, _, .tuple items | .sequence, _, .list items
  | .sequence, _, .tuple items => .ok items
  | .set, _, .set false items | .abstractSet, _, .set false items
  | .frozenset, _, .set true items => .ok items
  | .sequence, _, .text _ => .error "'str' instances are not allowed as a Sequence value"
  | .sequence, _, _ => .error refusal
  | _, false, .list items | _, false, .tuple items | _, false, .set _ items => .ok items
  | _, _, _ => .error refusal

/-- The collection of a given type that holds the items; a sequence stays what it was. -/
def collect (type : Collection) (given : Value) (items : List Value) : Value :=
  match type, given with
  | .list, _ => .list items
  | .tuple, _ | .sequence, .tuple _ => .tuple items
  | .set, _ | .abstractSet, _ => .set false (Value.withoutRepeats items)
  | .frozenset, _ => .set true (Value.withoutRepeats items)
  | .sequence, _ => .list items

/-- What a refusal calls a collection. -/
def collectionTitle : Collection → String
  | .list | .sequence => "List"
  | .tuple => "Tuple"
  | .set | .abstractSet => "Set"
  | .frozenset => "Frozenset"

/-- The rules among notes, options being spelled out. -/
def rulesIn (notes : List Note) : List FieldRule :=
  (notes.flatMap Note.expand).filterMap fun
    | .fieldRule rule => some rule
    | _ => none

/-- Whether rules ask for values without conversion. -/
def asksStrict (rules : List FieldRule) : Bool :=
  rules.any fun
    | .strict value => value
    | _ => false

/-- Checks each value of a list. -/
def checkEachValue (check : Value → Except String Value) :
    List Value → Except String (List Value)
  | [] => .ok []
  | v :: rest => do
    let v ← check v
    return v :: (← checkEachValue check rest)

/-- Checks each entry of a dictionary, the key before the value. -/
def checkEachEntry (checkKey check : Value → Except String Value) :
    List (Value × Value) → Except String (List (Value × Value))
  | [] => .ok []
  | (k, v) :: rest => do
    let k ← checkKey k
    let v ← check v
    return (k, v) :: (← checkEachEntry checkKey check rest)

mutual

/-- A value checked against a type, converted where the type allows it. `build` makes a record of
a class from a dictionary. -/
def value (C : Classes) (build : String → List (Value × Value) → Except String Value)
    (rules : List FieldRule) (hint : Hint) (v : Value) : Except String Value :=
  let strict := asksStrict rules
  match hint with
  | .any | .forward _ => .ok v
  | .builtin type => toScalar strict rules type v
  | .none | .noneType =>
    match v with
    | .null => .ok v
    | _ => .error "Input should be None"
  | .annotated base notes => value C build (rules ++ rulesIn notes) base v
  | .union _ members =>
    match v with
    | .null => .ok v
    | _ => firstMember C build rules members v
  | .bareCollection type => do
    let items ← itemsFor strict type v
    checkAll (checkSize (collectionTitle type) items.length) rules
    return collect type v items
  | .collection type item => do
    let items ← checkEachValue (value C build [] item) (← itemsFor strict type v)
    checkAll (checkSize (collectionTitle type) items.length) rules
    return collect type v items
  | .bareMapping _ =>
    match v with
    | .dict _ => .ok v
    | _ => .error "Input should be a valid dictionary"
  | .mapping _ key item =>
    match v with
    | .dict entries => do
      let entries ← checkEachEntry (value C build [] key) (value C build [] item) entries
      return .dict entries
    | _ => .error "Input should be a valid dictionary"
  | .fixedTuple _ => .ok v
  | .named name =>
    match C.enumeration? name with
    | some e => toMember strict name e v
    | none =>
      let isInstance := match v with
        | .record c _ => (C.ancestry c).contains name
        | _ => false
      if isInstance then .ok v
      else match v with
        | .dict entries =>
          if C.isRecord name then build name entries
          else .error s!"Input should be an instance of {name}"
        | _ =>
          if C.isModel name then
            .error s!"Input should be a valid dictionary or instance of {name}"
          else if C.isRecord name then
            .error s!"Input should be a dictionary or an instance of {name}"
          else .error s!"Input should be an instance of {name}"

/-- A value checked against the first member of a union that is not the type of the null value. -/
def firstMember (C : Classes) (build : String → List (Value × Value) → Except String Value)
    (rules : List FieldRule) (members : List Hint) (v : Value) : Except String Value :=
  match members with
  | [] => .error "Input should be None"
  | .noneType :: rest => firstMember C build rules rest v
  | member :: _ => value C build rules member v

end

end ModelCheck

end HttpContract
