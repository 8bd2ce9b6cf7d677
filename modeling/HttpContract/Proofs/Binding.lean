import HttpContract.Proofs.Body.Crashing

/-!
# Binders only refuse

A binder is made of parsers whose constraints were checked against what they parse. Whatever texts
a request offers, such a parser makes a value of its kind or refuses the text, the values it makes
have a hash, and the record's constructor takes what is gathered. A refusal is the client's failure
unless a constraint of the parser cannot say why it refuses.
-/

namespace HttpContract

namespace Binding

/-- Whether a value is one that a text of a parameter may stand for. -/
inductive Parsed : ParameterType → Value → Prop
  | text (s : String) : Parsed (.scalar .text) (.text s)
  | integer (n : Number) : Parsed (.scalar .integer) (.number n)
  | number (n : Number) : Parsed (.scalar .number) (.number n)
  | boolean (b : Bool) : Parsed (.scalar .boolean) (.bool b)
  | uuid (u : Uuid) : Parsed (.scalar .uuid) (.uuid u)
  | date (d : Date) : Parsed (.scalar .date) (.date d)
  | dateTime (t : DateTime) : Parsed (.scalar .dateTime) (.dateTime t)
  | member (name : String) (e : Enumeration) (m : String × Value) :
      Parsed (.enumeration name) (Body.memberValue name e m)

variable {C : Classes}

/-- A text names nothing but members. -/
theorem exists_of_member? {name s : String} {e : Enumeration} {v : Value}
    (h : member? name e s = some v) : ∃ m, v = Body.memberValue name e m := by
  unfold member? at h
  split at h
  · rename_i m _
    split at h
    · exact ⟨m, (Option.some.inj h).symm⟩
    · cases h
  · obtain ⟨m, _, rfl⟩ := Option.map_eq_some_iff.mp h
    exact ⟨m, rfl⟩

/-- A converted text is a value of its type. -/
theorem parsed_of_convert? {type : ParameterType} {s : String} {v : Value}
    (h : convert? C type s = some v) : Parsed type v := by
  cases type with
  | scalar type =>
    cases type with
    | text =>
      cases h
      exact .text s
    | integer =>
      obtain ⟨n, _, rfl⟩ := Option.map_eq_some_iff.mp h
      exact .integer (.int n)
    | number =>
      obtain ⟨x, _, rfl⟩ := Option.map_eq_some_iff.mp h
      exact .number (.float x)
    | boolean =>
      obtain ⟨b, _, rfl⟩ := Option.map_eq_some_iff.mp h
      exact .boolean b
    | uuid =>
      obtain ⟨u, _, rfl⟩ := Option.map_eq_some_iff.mp h
      exact .uuid u
    | date =>
      obtain ⟨d, _, rfl⟩ := Option.map_eq_some_iff.mp h
      exact .date d
    | dateTime =>
      obtain ⟨t, _, rfl⟩ := Option.map_eq_some_iff.mp h
      exact .dateTime t
  | enumeration name =>
    obtain ⟨e, _, h⟩ := Option.bind_eq_some_iff.mp h
    obtain ⟨m, rfl⟩ := exists_of_member? h
    exact .member name e m

/-- A parsed value has a hash. -/
theorem unhashable?_of_parsed {type : ParameterType} {v : Value} (h : Parsed type v) :
    Body.unhashable? C v = none := by
  cases h with
  | member name e m => rw [Body.memberValue, Body.unhashable?] <;> simp
  | text | integer | number | boolean | uuid | date | dateTime => rw [Body.unhashable?] <;> simp

/-- A constraint that fits a parameter type can be applied to its values, which are texts or
numbers then. -/
theorem fitting_parsed {c : Constraint} {type : TypeInfo} {parsed : ParameterType} {v : Value}
    (hfits : c.Fits type) (htype : parameterType? type = some parsed) (hv : Parsed parsed v) :
    v.IsBasic ∧ ¬c.Misfits v := by
  obtain ⟨hadmits, hpattern⟩ := hfits
  cases type with
  | array container item nullable notes | map item nullable notes => cases htype
  | leaf form nullable notes =>
    cases form with
    | record name | polymorphic base | any => cases htype
    | enumeration name => cases hadmits
    | scalar type =>
      cases htype
      cases hv with
      | text s =>
        refine ⟨.text s, ?_⟩
        rintro (hnumeric | ⟨regex, message, why, rfl, hwhy⟩)
        · simp [Constraint.admits, hnumeric] at hadmits
        · rw [hpattern regex message rfl] at hwhy
          cases hwhy
      | integer n | number n =>
        refine ⟨.number n, fun hmisfit => ?_⟩
        have hnumeric : c.isNumeric = true := hadmits
        rw [Constraint.Misfits, hnumeric] at hmisfit
        cases hmisfit
      | boolean | uuid | date | dateTime => cases hadmits

/-- A value that passes a constraint stays a value of its type. -/
theorem parsed_apply {c : Constraint} {parsed : ParameterType} {place : String} {v w : Value}
    (hbasic : v.IsBasic) (hv : Parsed parsed v) (h : c.apply place v = .ok w) :
    Parsed parsed w := by
  cases hv with
  | text s =>
    obtain ⟨t, rfl⟩ := Constraint.apply_text h
    exact .text t
  | integer n =>
    obtain ⟨m, rfl⟩ := Constraint.apply_number h
    exact .integer m
  | number n =>
    obtain ⟨m, rfl⟩ := Constraint.apply_number h
    exact .number m
  | boolean | uuid | date | dateTime | member => cases hbasic

/-- Constraints that fit a parameter type only refuse its values, and keep them within it. -/
theorem onlyRefuses_applyInOrder {type : TypeInfo} {parsed : ParameterType}
    (htype : parameterType? type = some parsed) {ordered : List Constraint}
    (hfits : ∀ c ∈ ordered, c.Fits type) (place : String) {v : Value} (hv : Parsed parsed v) :
    OnlyRefuses ordered (applyInOrder place ordered v) ∧
      ∀ w, applyInOrder place ordered v = .ok w → Parsed parsed w := by
  induction ordered generalizing v with
  | nil => exact ⟨.ok _, fun w h => Except.ok.inj h ▸ hv⟩
  | cons c rest ih =>
    obtain ⟨hbasic, hmisfit⟩ := fitting_parsed (hfits c List.mem_cons_self) htype hv
    have hrest {w : Value} (hw : Parsed parsed w) :=
      ih (fun d hd => hfits d (List.mem_cons_of_mem _ hd)) hw
    constructor
    · have hfirst : OnlyRefuses (c :: rest) (c.apply place v) :=
        (Constraint.onlyRefuses_apply place hbasic hmisfit).mono (by simp)
      exact hfirst.bind fun w hw =>
        (hrest (parsed_apply hbasic hv hw)).1.mono (List.subset_cons_self _ _)
    · intro w h
      obtain ⟨between, hfirst, h⟩ := bind_eq_ok_iff.mp h
      exact (hrest (parsed_apply hbasic hv hfirst)).2 w h

end Binding

namespace ScalarParser

variable {p : ScalarParser}

/-- Whether the constraints of a parser fit what it parses. -/
def Sound (p : ScalarParser) : Prop :=
  ∃ type, Binding.parameterType? type = some p.type ∧ ∀ c ∈ p.constraints, c.Fits type

/-- A sound parser makes of a text a value of its type, or refuses it. -/
theorem onlyRefuses_parseOne (C : Classes) (hp : p.Sound) (name text : String) :
    OnlyRefuses p.constraints (p.parseOne C name text) ∧
      ∀ v, p.parseOne C name text = .ok (some v) → Binding.Parsed p.type v := by
  obtain ⟨type, htype, hfits⟩ := hp
  unfold parseOne
  split
  · split
    · exact ⟨.ok _, fun v h => by cases h⟩
    · exact ⟨.refused _ rfl, fun v h => by cases h⟩
  · split
    · exact ⟨.refused _ rfl, fun v h => by cases h⟩
    · rename_i v hv
      have hordered : ∀ c ∈ inOrder p.constraints, c.Fits type :=
        fun c hc => hfits c (mem_inOrder.mp hc)
      obtain ⟨hrefuses, hparsed⟩ := Binding.onlyRefuses_applyInOrder htype hordered name
        (Binding.parsed_of_convert? hv)
      refine ⟨(hrefuses.mono fun c hc => mem_inOrder.mp hc).map, fun w h => ?_⟩
      obtain ⟨u, hu, heq⟩ := map_eq_ok_iff.mp h
      obtain rfl := Option.some.inj heq
      exact hparsed _ hu

/-- A sound parser makes of texts values of its type, or refuses one of them. -/
theorem onlyRefuses_parseEach (C : Classes) (hp : p.Sound) (name : String) (texts : List String) :
    OnlyRefuses p.constraints (p.parseEach C name texts) ∧
      ∀ vs, p.parseEach C name texts = .ok vs → ∀ v ∈ vs, Binding.Parsed p.type v := by
  induction texts with
  | nil =>
    refine ⟨.ok _, fun vs h => ?_⟩
    cases h
    simp
  | cons text rest ih =>
    obtain ⟨hfirst, hparsed⟩ := onlyRefuses_parseOne C hp name text
    constructor
    · exact hfirst.bind fun _ _ => ih.1.bind fun _ _ => .ok _
    · intro vs h
      obtain ⟨made, hmade, h⟩ := bind_eq_ok_iff.mp h
      obtain ⟨others, hothers, h⟩ := bind_eq_ok_iff.mp h
      cases h
      intro v hv
      rcases List.mem_append.mp hv with hv | hv
      · exact hparsed v (by rw [hmade, Option.mem_toList.mp hv])
      · exact ih.2 others hothers v hv

end ScalarParser

namespace FlatParser

variable {C : Classes} {name : String}

/-- The parser of one text. -/
def item : FlatParser → ScalarParser
  | .scalar item _ _ | .list _ item _ _ => item

/-- A list is made of the items of its texts. -/
theorem build_list (container : Container) (item : ScalarParser) (style : ParameterStyle)
    (explode : Bool) {raw : RawValues} {texts : List String} (hget : raw.get? name = some texts) :
    (FlatParser.list container item style explode).build C name raw =
      item.parseEach C name (itemsOf explode texts) >>= fun items =>
        (Body.contain C container items).map some := by
  rw [build, hget]
  rfl

/-- Items that have a hash can be put into any container. -/
theorem onlyRefuses_contain {constraints : List Constraint} {container : Container}
    {items : List Value} (hitems : ∀ v ∈ items, Body.unhashable? C v = none) :
    OnlyRefuses constraints (Body.contain C container items) := by
  refine .of_not_crashes fun h => ?_
  obtain ⟨_, v, hv, type, htype⟩ := Body.crashes_contain_iff.mp h
  rw [hitems v hv] at htype
  cases htype

/-- A sound parser makes a value of any texts, or refuses them: the items of its sets have a
hash. -/
theorem onlyRefuses_build {p : FlatParser} (hp : p.item.Sound) (raw : RawValues) :
    OnlyRefuses p.item.constraints (p.build C name raw) := by
  unfold build
  split
  · exact .ok _
  · cases p with
    | scalar item style explode =>
      dsimp only
      split
      · exact .ok _
      · exact (ScalarParser.onlyRefuses_parseOne C hp name _).1
    | list container item style explode =>
      rename_i texts _
      obtain ⟨hrefuses, hparsed⟩ :=
        ScalarParser.onlyRefuses_parseEach C hp name (itemsOf explode texts)
      refine hrefuses.bind fun items hitems => ?_
      have hhashed (v : Value) (hv : v ∈ items) : Body.unhashable? C v = none :=
        Binding.unhashable?_of_parsed (C := C) (hparsed items hitems v hv)
      exact (onlyRefuses_contain hhashed).bind fun _ _ => .ok _

/-- The parser of a field whose constraints were checked is sound. -/
theorem sound_of_flatParser? {owner : String} {f : Field} {location : Location}
    {allowEmpty : Bool} {p : FlatParser}
    (hcheck : checkConstraints owner f.type f.type.constraints = .ok ())
    (h : Binding.flatParser? f location allowEmpty = some p) : p.item.Sound := by
  unfold Binding.flatParser? at h
  dsimp only at h
  cases htype : f.type with
  | array container item nullable notes =>
    rw [htype] at h hcheck
    obtain ⟨parsed, hparsed, rfl⟩ := Option.map_eq_some_iff.mp h
    obtain ⟨_, hnotes, hitem⟩ := bind_eq_ok_iff.mp hcheck
    refine ⟨item, hparsed, fun c hc => ?_⟩
    rcases List.mem_append.mp hc with hc | hc
    · exact fits_of_checkEach hnotes c hc
    · cases item with
      | array _ _ _ _ | map _ _ _ => cases hparsed
      | leaf form _ _ => exact fits_of_checkEach hitem c hc
  | map item nullable notes | leaf form nullable notes =>
    rw [htype] at h hcheck
    obtain ⟨parsed, hparsed, rfl⟩ := Option.map_eq_some_iff.mp h
    refine ⟨f.type, by rw [htype]; exact hparsed, fun c hc => ?_⟩
    have hc : c ∈ f.type.constraints := hc
    rw [htype] at hc ⊢
    exact fits_of_checkEach hcheck c hc

end FlatParser

/-- A constructor takes what is collected for the fields of its shape, when what is built for each
of them is only refused. -/
theorem onlyRefuses_collect {C : Classes} {P : Type} {className : String} {shape : Shape}
    (hshape : C.shape className = .ok shape) (htakes : C.TakesValues className)
    {bounds : List (BoundField P)} (hfields : bounds.map (·.field) = shape.fields)
    {build : BoundField P → Except Failure (Option Value)} {constraints : List Constraint}
    (hbuild : ∀ bound ∈ bounds, OnlyRefuses constraints (build bound)) :
    OnlyRefuses constraints (Binding.collect build bounds >>= C.construct shape) := by
  rw [Binding.collect_eq_gather]
  refine OnlyRefuses.bind (.gather fun bound hbound => ?_) fun given hgiven => ?_
  · refine (hbuild bound hbound).bind fun made _ => ?_
    cases made with
    | some v => exact .ok _
    | none => exact .of_not_crashes (bound.field.not_crashes_absent _)
  · have hcovers := covers_gather hfields Binding.given_collectField hgiven
    exact .of_not_crashes (Classes.not_crashes_construct hshape htakes hcovers)

namespace Classes

variable {C : Classes} {f : Field}

/-- A field of a nested record is bound by a parser of its own, under its key. -/
theorem boundNested_eq_ok {location : Location} {allowEmpty : Bool} {bound : BoundField FlatParser}
    (h : boundNested location allowEmpty f = .ok bound) :
    bound.field = f ∧ Binding.flatParser? f location allowEmpty = some bound.parser ∧
      bound.location = location ∧ bound.key = Binding.keyAt location f := by
  unfold boundNested at h
  split at h
  · rename_i parser hparser
    cases h
    exact ⟨rfl, hparser, rfl, rfl⟩
  · cases h

/-- A field of a parameter shape is bound at its location, under its key there. -/
theorem boundField_eq_ok {className : String} {bound : BoundField ParameterParser}
    (h : C.boundField className f = .ok bound) :
    bound.field = f ∧ ∃ note, f.parameter = some note ∧
      C.parameterParser f note.location note.allowEmpty = .ok bound.parser ∧
      bound.location = note.location ∧ bound.key = Binding.keyAt note.location f := by
  unfold boundField at h
  split at h
  · cases h
  · rename_i note hnote
    obtain ⟨parser, hparser, h⟩ := bind_eq_ok_iff.mp h
    cases h
    exact ⟨rfl, note, hnote, hparser, rfl, rfl⟩

/-- The parser of a nested record binds the fields of its shape, one by one. -/
theorem nestedBinder_eq_ok {className : String} {location : Location} {allowEmpty : Bool}
    {p : ObjectParser} (h : C.nestedBinder className location allowEmpty = .ok p) :
    C.shape className = .ok p.shape ∧
      p.shape.fields.mapM (boundNested location allowEmpty) = .ok p.fields ∧
      p.fields.map (·.field) = p.shape.fields := by
  obtain ⟨shape, hshape, h⟩ := bind_eq_ok_iff.mp h
  split at h
  · cases h
  · obtain ⟨bounds, hbounds, h⟩ := bind_eq_ok_iff.mp h
    cases h
    exact ⟨hshape, hbounds, map_of_mapM (fun f bound h => (boundNested_eq_ok h).1) hbounds⟩

/-- A binder binds the fields of its shape, one by one. -/
theorem binder_eq_ok {className : String} {b : Binder} (h : C.binder className = .ok b) :
    C.shape className = .ok b.shape ∧
      b.shape.fields.mapM (C.boundField className) = .ok b.fields ∧
      b.fields.map (·.field) = b.shape.fields := by
  obtain ⟨shape, hshape, h⟩ := bind_eq_ok_iff.mp h
  obtain ⟨bounds, hbounds, h⟩ := bind_eq_ok_iff.mp h
  cases h
  exact ⟨hshape, hbounds, map_of_mapM (fun f bound h => (boundField_eq_ok h).1) hbounds⟩

/-- The binder of a parameter shape is that of a class, the one whose shape it binds. -/
theorem binder_of_binderOf {params : Option Hint} {b : Binder}
    (h : C.binderOf params = .ok (some b)) : C.binder b.shape.className = .ok b := by
  unfold binderOf at h
  split at h
  · cases h
  · obtain ⟨className, _, h⟩ := bind_eq_ok_iff.mp h
    obtain ⟨made, hmade, h⟩ := bind_eq_ok_iff.mp h
    cases h
    obtain ⟨hshape, _, _⟩ := binder_eq_ok hmade
    rw [(shape_eq_ok hshape).1]
    exact hmade

/-- What a binder binds is a field of its shape, under its key at its location, by the parser that
is made for the field there. -/
theorem bound_of_binder {className : String} {b : Binder} (h : C.binder className = .ok b)
    {bound : BoundField ParameterParser} (hbound : bound ∈ b.fields) :
    bound.field ∈ b.shape.fields ∧ bound.key = Binding.keyAt bound.location bound.field ∧
      ∃ allowEmpty,
        C.parameterParser bound.field bound.location allowEmpty = .ok bound.parser := by
  obtain ⟨_, hbounds, _⟩ := binder_eq_ok h
  obtain ⟨f, hf, hmade⟩ := exists_of_mem_mapM hbounds hbound
  obtain ⟨rfl, note, _, hparser, hlocation, hkey⟩ := boundField_eq_ok hmade
  rw [← hlocation] at hparser hkey
  exact ⟨hf, hkey, note.allowEmpty, hparser⟩

end Classes

namespace ObjectParser

variable {C : Classes}

/-- Whether a parser reads the fields of a record that takes values, all of them by sound parsers.
-/
structure Sound (C : Classes) (p : ObjectParser) : Prop where
  shape : ∃ name, C.shape name = .ok p.shape ∧ C.TakesValues name
  fields : p.fields.map (·.field) = p.shape.fields
  parsers : ∀ bound ∈ p.fields, bound.parser.item.Sound

/-- The constraints of all fields of a parser of a record. -/
def constraints (p : ObjectParser) : List Constraint :=
  p.fields.flatMap (·.parser.item.constraints)

/-- A sound parser of a record only refuses. -/
theorem onlyRefuses_build {p : ObjectParser} (hp : p.Sound C) (name : String) (raw : RawValues) :
    OnlyRefuses p.constraints (p.build C name raw) := by
  obtain ⟨className, hshape, htakes⟩ := hp.shape
  unfold build
  split
  · exact .ok _
  · refine OnlyRefuses.map (onlyRefuses_collect hshape htakes hp.fields fun bound hbound => ?_)
    exact (FlatParser.onlyRefuses_build (hp.parsers bound hbound) _).mono fun c hc =>
      List.mem_flatMap_of_mem hbound hc

end ObjectParser

namespace ParameterParser

variable {C : Classes}

/-- Whether a parser reads one parameter soundly. -/
def Sound (C : Classes) : ParameterParser → Prop
  | .flat p => p.item.Sound
  | .object p => p.Sound C

/-- The constraints that a parser of a parameter applies. -/
def constraints : ParameterParser → List Constraint
  | .flat p => p.item.constraints
  | .object p => p.constraints

/-- A sound parser of a parameter only refuses. -/
theorem onlyRefuses_build {p : ParameterParser} (hp : p.Sound C) (name : String)
    (raw : RawValues) : OnlyRefuses p.constraints (p.build C name raw) := by
  cases p with
  | flat p => exact FlatParser.onlyRefuses_build hp raw
  | object p => exact ObjectParser.onlyRefuses_build hp name raw

end ParameterParser

namespace Binder

variable {C : Classes} {className : String} {b : Binder}

/-- The constraints that the parsers of a binder apply. -/
def constraints (b : Binder) : List Constraint :=
  b.fields.flatMap (·.parser.constraints)

end Binder

end HttpContract
