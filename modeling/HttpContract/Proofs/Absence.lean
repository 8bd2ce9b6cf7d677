import HttpContract.Proofs.Attributes
import HttpContract.Proofs.Binding
import HttpContract.Proofs.Schema.Presence

/-!
# Fields that are left out

The document, the binders and the reader of bodies have one notion of a field for which nothing is
sent. If it must be given, it is listed as required and its absence is refused under its name for
clients. If not, the constructor is asked without it, or with null, and what it makes has the
default that is documented, or where a factory makes the default what the factory makes then.
-/

namespace HttpContract

namespace Field

/-- Whether a field can do with what was made for it: a value, or none where none must be given. -/
def Gets (f : Field) (made : Except Failure (Option Value)) : Prop :=
  ∃ v, made = .ok v ∧ (v = none → f.required = false)

/-- What is given to a field: the value made for it, or what an absent field is given. -/
def take (f : Field) (label : String) (made : Except Failure (Option Value)) :
    Except Failure (List (String × Value)) :=
  made >>= fun
    | some v => .ok [(f.initName, v)]
    | none => f.absent label

/-- A field that nothing is made for is absent. -/
@[simp] theorem take_none (f : Field) (label : String) :
    f.take label (.ok none) = f.absent label := rfl

/-- What is taken for a field is given to it, under its name and once. -/
theorem given_take {f : Field} {label : String} {made : Except Failure (Option Value)}
    {own : List (String × Value)} (h : f.take label made = .ok own) :
    f.Given own ∧ Table.Distinct own := by
  obtain ⟨v, _, h⟩ := bind_eq_ok_iff.mp h
  cases v with
  | some v =>
    cases h
    exact ⟨f.given_single v, List.nodup_singleton _⟩
  | none =>
    have habsent : f.absent label = .ok own := h
    refine ⟨given_of_absent habsent, ?_⟩
    unfold absent at habsent
    split at habsent
    · cases habsent
      exact List.nodup_nil
    · split at habsent
      · cases habsent
        exact List.nodup_singleton _
      · cases habsent

/-- The absence of a field that need not be given is not refused. -/
theorem exists_absent {f : Field} (label : String) (h : f.nullable = true ∨ f.default ≠ none) :
    ∃ own, f.absent label = .ok own := by
  unfold absent
  by_cases hdefault : f.default.isSome = true
  · exact ⟨[], if_pos hdefault⟩
  · have hnullable : f.nullable = true := h.resolve_right (by simpa using hdefault)
    rw [if_neg hdefault, if_pos hnullable]
    exact ⟨_, rfl⟩

/-- An absent field is given nothing where there is a default, and null where null stands for that.
-/
theorem absent_eq_ok {f : Field} {label : String} {own : List (String × Value)}
    (h : f.absent label = .ok own) :
    (f.default ≠ none ∧ Table.get? f.initName own = none) ∨
      (f.default = none ∧ f.nullable = true ∧ Table.get? f.initName own = some .null) := by
  unfold absent at h
  split at h
  · rename_i hdefault
    cases h
    exact Or.inl ⟨Option.isSome_iff_ne_none.mp hdefault, rfl⟩
  · rename_i hdefault
    split at h
    · rename_i hnullable
      cases h
      exact Or.inr ⟨by simpa using hdefault, hnullable, by simp [Table.get?]⟩
    · cases h

/-- A field that can do with what was made for it takes it. -/
theorem exists_take {f : Field} {made : Except Failure (Option Value)} (label : String)
    (h : f.Gets made) : ∃ own, f.take label made = .ok own := by
  obtain ⟨v, rfl, hrequired⟩ := h
  cases v with
  | some v => exact ⟨_, rfl⟩
  | none =>
    refine exists_absent label ?_
    have hoptional := hrequired rfl
    rw [required, Bool.and_eq_false_iff] at hoptional
    simpa [← Option.isSome_iff_ne_none] using hoptional

/-- What comes of a record when nothing is sent for one of its fields, `gathered` being the values
for its constructor. -/
structure LeftOut (C : Classes) (shape : Shape) (f : Field) (label : String)
    (gathered : Except Failure (List (String × Value))) (made : Except Failure Value) : Prop where
  /-- A field that must be given is missing. -/
  missing : f.nullable = false → f.default = none → made = .error (.binding (.missing label))
  /-- Without any other one it is for the constructor to decide. -/
  constructed : f.nullable = true ∨ f.default ≠ none →
    ∃ given, gathered = .ok given ∧ made = C.construct shape given
  /-- What the constructor makes has what stands for the field then, or null where nothing does. -/
  held : ∀ v, made = .ok v → ∃ attributes, v = .record shape.className attributes ∧
    Table.get? f.name attributes = some ((C.defaultOf shape.className f.name).fresh?.getD .null)
  /-- Where no factory makes it, that is the default. -/
  declared : (C.defaultOf shape.className f.name).isMade = false →
    (C.defaultOf shape.className f.name).fresh? = f.default

end Field

section Gather

variable {C : Classes} {className : String} {shape : Shape} {α : Type} {field : α → Field}
  (label : α → String) {made : α → Except Failure (Option Value)} {xs : List α}

/-- Where what is gathered for one of the fields of a shape is what is given to an absent one, the
constructor makes an instance with what stands for this field then, or null where nothing does. -/
theorem exists_attributes_of_absent (hC : C.WellFormed) (hshape : C.shape className = .ok shape)
    (hinit : (shape.fields.map (·.initName)).Nodup) (hfields : xs.map field = shape.fields)
    {x : α} (hx : x ∈ xs) (hpart : (field x).take (label x) (made x) = (field x).absent (label x))
    {given : List (String × Value)}
    (hgiven : gather (fun y => (field y).take (label y) (made y)) xs = .ok given) {v : Value}
    (hmade : C.construct shape given = .ok v) :
    ∃ attributes, v = .record className attributes ∧ Table.get? (field x).name attributes =
      some ((C.defaultOf className (field x).name).fresh?.getD .null) := by
  have hmem : field x ∈ shape.fields := hfields ▸ List.mem_map_of_mem hx
  have hnames : (xs.map fun y => (field y).initName).Nodup := by
    rw [← hfields, List.map_map] at hinit
    exact hinit
  obtain ⟨own, hown, hget⟩ := get?_gather hnames (fun _ _ h => (Field.given_take h).1) hgiven hx
  rw [hpart] at hown
  have hdistinct := distinct_gather hnames (fun _ _ h => Field.given_take h) hgiven
  obtain ⟨attributes, hattributes, hkept⟩ :=
    Classes.exists_attributes_of_construct hC hshape hdistinct hmade
  obtain ⟨hdefaulted, hnulled⟩ := hkept (field x) hmem
  rw [hget] at hdefaulted hnulled
  refine ⟨attributes, hattributes, ?_⟩
  have hsome := (C.defaultOf className (field x).name).isSome_fresh?
  rw [← Classes.default_eq_declared? hC hshape hmem] at hsome
  rcases Field.absent_eq_ok hown with ⟨hdefault, hnothing⟩ | ⟨hdefault, hnullable, hnull⟩
  · rw [Option.isSome_iff_ne_none.mpr hdefault] at hsome
    obtain ⟨value, hvalue⟩ := Option.isSome_iff_exists.mp hsome
    rw [hdefaulted hnothing, hvalue]
    rfl
  · have hnothing : (C.defaultOf className (field x).name).fresh? = none := by
      simpa [hdefault] using hsome
    rw [hnulled hnullable hnull, hnothing]
    rfl

/-- When nothing is made for one of the fields of a shape, and all others can do with what is made
for them, the field is left out of what is gathered. -/
theorem leftOut_gather (hC : C.WellFormed) (hshape : C.shape className = .ok shape)
    (hinit : (shape.fields.map (·.initName)).Nodup) (hfields : xs.map field = shape.fields)
    {x : α} (hx : x ∈ xs) (hnone : made x = .ok none)
    (hothers : ∀ y ∈ xs, field y ≠ field x → (field y).Gets (made y)) :
    let gathered := gather (fun y => (field y).take (label y) (made y)) xs
    (field x).LeftOut C shape (label x) gathered (gathered >>= C.construct shape) := by
  intro gathered
  obtain ⟨hname, _, hwire⟩ := Classes.shape_eq_ok hshape
  have hmem : field x ∈ shape.fields := hfields ▸ List.mem_map_of_mem hx
  have hpart : (field x).take (label x) (made x) = (field x).absent (label x) := by
    rw [hnone, Field.take_none]
  have hrest : ∀ y ∈ xs, y ≠ x → ∃ own, (field y).take (label y) (made y) = .ok own := by
    intro y hy hne
    refine Field.exists_take _ (hothers y hy fun heq => hne ?_)
    rw [← hfields, List.map_map] at hwire
    exact List.inj_on_of_nodup_map hwire hy hx (congrArg Field.wireName heq)
  constructor
  case missing =>
    intro hnullable hdefault
    have hrequired : (field x).required = true := by simp [Field.required, hnullable, hdefault]
    have hfail := hpart.trans (Field.absent_eq_error_iff.mpr ⟨hrequired, rfl⟩)
    rw [show gathered = _ from gather_eq_error hx hfail hrest]
    rfl
  case constructed =>
    intro hoptional
    obtain ⟨own, hown⟩ := Field.exists_absent (label x) hoptional
    have hall : ∀ y ∈ xs, ∃ own, (field y).take (label y) (made y) = .ok own := by
      intro y hy
      by_cases heq : y = x
      · exact ⟨own, by rw [heq, hpart, hown]⟩
      · exact hrest y hy heq
    obtain ⟨given, hgiven⟩ := exists_gather hall
    refine ⟨given, hgiven, ?_⟩
    rw [show gathered = _ from hgiven]
    rfl
  case held =>
    intro v hv
    obtain ⟨given, hgiven, hmade⟩ := bind_eq_ok_iff.mp hv
    rw [hname]
    exact exists_attributes_of_absent label hC hshape hinit hfields hx hpart hgiven hmade
  case declared =>
    intro hmade
    rw [hname] at hmade ⊢
    rw [FieldDefault.fresh?_eq_declared? hmade, Classes.default_eq_declared? hC hshape hmem]

end Gather

namespace Body

variable {C : Classes} {className : String} {shape : Shape}

/-- What the member of an object is read as for a field, none where there is no such member. -/
def sent (C : Classes) (members : List (String × Json)) (path : String) (f : Field) :
    Except Failure (Option Value) :=
  match Table.get? f.wireName members with
  | some j => (readValue C f.type j (memberPath path f.wireName)).map some
  | none => .ok none

/-- A field of a body takes what its member is read as. -/
theorem readField_eq_take (members : List (String × Json)) (path : String) (f : Field) :
    readField path (memberReaders C members) f =
      f.take (memberPath path f.wireName) (sent C members path f) := by
  rw [readField, sent, get?_memberReaders]
  cases Table.get? f.wireName members with
  | none => rfl
  | some j =>
    dsimp only [Option.map_some, readValue]
    cases read C j f.type (memberPath path f.wireName) [] <;> rfl

/-- A field that an object has no member for is left out of the record that the object is read as.
-/
theorem leftOut_readValue (hC : C.WellFormed) (hshape : C.shape className = .ok shape)
    (hinit : (shape.fields.map (·.initName)).Nodup) {f : Field} (hf : f ∈ shape.fields)
    {members : List (String × Json)} {path : String} (hkey : Table.get? f.wireName members = none)
    (hothers : ∀ g ∈ shape.fields, g ≠ f → g.Gets (sent C members path g)) (nullable : Bool)
    (notes : List Note) :
    f.LeftOut C shape (memberPath path f.wireName)
      (readFields path (memberReaders C members) shape.fields)
      (readValue C (.leaf (.record className) nullable notes) (.object members) path) := by
  have hnone : sent C members path f = .ok none := by
    rw [sent, hkey]
  have hgather : readFields path (memberReaders C members) shape.fields =
      gather (fun g => g.take (memberPath path g.wireName) (sent C members path g))
        shape.fields := by
    rw [readFields_eq_gather]
    congr 1
    funext g
    exact readField_eq_take members path g
  have hread : readValue C (.leaf (.record className) nullable notes) (.object members) path =
      readFields path (memberReaders C members) shape.fields >>= C.construct shape := by
    rw [readValue, read_record, hshape]
    rfl
  rw [hread, hgather]
  exact leftOut_gather (fun g => memberPath path g.wireName) hC hshape hinit
    (List.map_id shape.fields) hf hnone hothers

end Body

namespace Binding

variable {C : Classes} {className : String} {shape : Shape} {P : Type}

/-- A field that nothing is built for is left out of the record that is bound. -/
theorem leftOut_collect (hC : C.WellFormed) (hshape : C.shape className = .ok shape)
    (hinit : (shape.fields.map (·.initName)).Nodup) {bounds : List (BoundField P)}
    (hfields : bounds.map (·.field) = shape.fields)
    {build : BoundField P → Except Failure (Option Value)} {bound : BoundField P}
    (hbound : bound ∈ bounds) (hnone : build bound = .ok none)
    (hothers : ∀ other ∈ bounds, other.field ≠ bound.field → other.field.Gets (build other)) :
    bound.field.LeftOut C shape bound.field.wireName (collect build bounds)
      (collect build bounds >>= C.construct shape) := by
  rw [collect_eq_gather]
  exact leftOut_gather (fun bound => bound.field.wireName) hC hshape hinit hfields hbound hnone
    hothers

end Binding

/-- Whether a request has no raw value for a parameter: no texts under its name, or for a nested
record no key that the name and brackets make. -/
def ParameterParser.Silent (p : ParameterParser) (name : String) (raw : RawValues) : Prop :=
  match p with
  | .flat _ => raw.get? name = none
  | .object _ => ObjectParser.entries name raw = []

/-- No value is built of texts that are not there. -/
theorem FlatParser.build_of_get? {C : Classes} (p : FlatParser) {name : String} {raw : RawValues}
    (h : raw.get? name = none) : p.build C name raw = .ok none := by
  rw [build, h]

/-- No value is built for a parameter that a request has no raw value for. -/
theorem ParameterParser.build_of_silent {C : Classes} {p : ParameterParser} {name : String}
    {raw : RawValues} (h : p.Silent name raw) : p.build C name raw = .ok none := by
  cases p with
  | flat p => exact p.build_of_get? h
  | object p =>
    have hentries : ObjectParser.entries name raw = [] := h
    rw [build, ObjectParser.build, hentries]

namespace Classes

/-- The schema of a shape in a document, its parameter objects, the reader of its bodies and its
binders have one notion of a field that is left out. -/
structure PresenceAgrees (C : Classes) (b : SchemaBuilder) (className : String) (shape : Shape) :
    Prop where
  /-- The schema that is registered for the class requires the fields that must be given and no
  others, and documents the defaults. -/
  schema : className ∈ b.registry.entries.map (·.owner) → ∃ s properties,
    b.registry.schema? (C.schemaNameOf className) = some s ∧ s.properties = some properties ∧
      ∀ f ∈ shape.fields, (f.wireName ∈ s.required ↔ f.nullable = false ∧ f.default = none) ∧
        ∃ property, Table.get? f.wireName properties = some property ∧
          f.Documents C property.default property.toJson
  /-- So do the parameter objects, one for each field. -/
  parameters : ∀ binder params after, C.binder className = .ok binder →
    (Parameter.ofBinder C binder).run b = .ok params after →
      List.Forall₂ (Parameter.Presents C) shape.fields params
  /-- A field is left out of a body that has no member for it. -/
  body : ∀ f ∈ shape.fields, ∀ members path, Table.get? f.wireName members = none →
    (∀ g ∈ shape.fields, g ≠ f → g.Gets (Body.sent C members path g)) → ∀ nullable notes,
      f.LeftOut C shape (Body.memberPath path f.wireName)
        (Body.readFields path (Body.memberReaders C members) shape.fields)
        (Body.readValue C (.leaf (.record className) nullable notes) (.object members) path)
  /-- A parameter is left out of a request that has no raw value for it. -/
  request : ∀ binder, C.binder className = .ok binder →
    binder.fields.map (·.field) = shape.fields ∧
      ∀ (source : Location → RawValues), ∀ bound ∈ binder.fields,
        bound.parser.Silent bound.key (source bound.location) →
        (∀ other ∈ binder.fields, other.field ≠ bound.field →
          other.field.Gets (other.parser.build C other.key (source other.location))) →
        bound.field.LeftOut C shape bound.field.wireName
          (Binding.collect (fun bound => bound.parser.build C bound.key (source bound.location))
            binder.fields)
          (binder.bindFrom C source)
  /-- A field is left out of a record in brackets that has no raw value for it. -/
  nested : ∀ location allowEmpty p, C.nestedBinder className location allowEmpty = .ok p →
    p.fields.map (·.field) = shape.fields ∧
      ∀ (raw : RawValues), ∀ bound ∈ p.fields, raw.get? bound.key = none →
        (∀ other ∈ p.fields, other.field ≠ bound.field →
          other.field.Gets (other.parser.build C other.key raw)) →
        bound.field.LeftOut C shape bound.field.wireName
          (Binding.collect (fun bound => bound.parser.build C bound.key raw) p.fields)
          (p.bindValues C raw)

variable {C : Classes} {className : String} {shape : Shape}

/-- The constructor of a shape has names of its own for the fields: that of a plain record always
has, that of a model when the names are distinct. -/
theorem nodup_initNames (hC : C.WellFormed) (hshape : C.shape className = .ok shape)
    (hmodel : C.isModel className = true → (shape.fields.map (·.initName)).Nodup) :
    (shape.fields.map (·.initName)).Nodup := by
  cases hkind : C.isModel className with
  | true => exact hmodel hkind
  | false =>
    obtain ⟨hnames, hinit, _⟩ := names_shape hkind hshape
    rw [List.map_congr_left hinit, hnames]
    exact (hC.nodup_fieldsOf className).sublist (List.filter_sublist.map _)

end Classes

/-- Whether a call asks for the schema of a hint or of a field of some shape. -/
def BuildCall.IsProper (C : Classes) : BuildCall → Prop
  | .hint _ => True
  | .field f => ∃ className shape, C.shape className = .ok shape ∧ f ∈ shape.fields

/-- A proper call walks along the form of a class. -/
theorem BuildCall.isOwn_of_form? {C : Classes} {call : BuildCall} (hcall : call.IsProper C)
    {form : Leaf} (hform : call.form? C = some form) : form.IsOwn C := by
  cases call with
  | hint hint =>
    obtain ⟨type, htype, rfl⟩ := Option.map_eq_some_iff.mp hform
    cases hresolve : C.resolve hint [] with
    | error e =>
      rw [hresolve] at htype
      cases htype
    | ok found =>
      rw [hresolve] at htype
      cases htype
      exact (Classes.resolveWithin_eq_ok hresolve).1
  | field f =>
    obtain ⟨className, shape, hshape, hf⟩ := hcall
    cases hform
    exact Classes.isOwn_of_mem hshape hf

/-- For every record or model that is no base of variants, document, binders and reader of bodies
agree about the presence of its fields. -/
theorem Classes.Described.presenceAgrees {C : Classes} (hC : C.Described) (bases : List String)
    {className : String} {shape : Shape}
    (hform : (C.settle bases).leaf? className = some (.record className))
    (hshape : (C.settle bases).shape className = .ok shape)
    (hmodel : (C.settle bases).isModel className = true →
      (shape.fields.map (·.initName)).Nodup)
    {calls : List BuildCall} (hcalls : ∀ call ∈ calls, call.IsProper (C.settle bases))
    {returned : List Schema} {b : SchemaBuilder}
    (hrun : (BuildCall.performAll (C.settle bases) calls).run {} = .ok returned b) :
    (C.settle bases).PresenceAgrees b className shape := by
  have hwell := hC.wellFormed_settle bases
  have hinit := nodup_initNames hwell hshape hmodel
  constructor
  case schema =>
    intro hregistered
    obtain ⟨met, hmeets, hholds, howners⟩ := BuildCall.holds_performAll hrun
    rw [howners] at hregistered
    obtain ⟨form, hmem, rfl⟩ := List.mem_map.mp hregistered
    have hforms : ∀ form ∈ BuildCall.forms (C.settle bases) calls,
        form.IsOwn (C.settle bases) ∨ ∃ name, form = .record name := by
      intro form hform
      obtain ⟨call, hcall, hfound⟩ := List.mem_filterMap.mp hform
      exact Or.inl (BuildCall.isOwn_of_form? (hcalls call hcall) hfound)
    have hrecord : form = .record form.label := by
      rcases hmeets.isOwn_or_record hforms form hmem with hown | ⟨name, rfl⟩
      · have := hown (hmeets.isNamed form hmem)
        rw [hform] at this
        exact (Option.some.inj this).symm
      · rfl
    obtain ⟨s, hs⟩ := hholds.finished form hmem
    rw [hrecord] at hs
    obtain ⟨properties, hproperties, hfields⟩ :=
      presence_bodyOf (hC.current_settle bases) hshape hs
    rw [← hrecord] at hs
    exact ⟨s, properties, hholds.schema?_eq hmem hs, hproperties, hfields⟩
  case parameters =>
    intro binder params after hbinder hparams
    have hfresh : ({} : SchemaBuilder).Sound := ⟨rfl, List.nodup_nil⟩
    obtain ⟨_, hsound, _⟩ := BuildCall.makes_performAll calls hfresh hrun
    obtain ⟨hsame, _, hfields⟩ := binder_eq_ok hbinder
    obtain rfl := Except.ok.inj (hshape.symm.trans hsame)
    rw [← hfields]
    exact (Parameter.makes_ofEach binder.fields hsound hparams).1
  case body =>
    exact fun f hf members path hkey hothers nullable notes =>
      Body.leftOut_readValue hwell hshape hinit hf hkey hothers nullable notes
  case request =>
    intro binder hbinder
    obtain ⟨hsame, _, hfields⟩ := binder_eq_ok hbinder
    obtain rfl := Except.ok.inj (hshape.symm.trans hsame)
    refine ⟨hfields, fun source bound hbound hsilent hothers => ?_⟩
    exact Binding.leftOut_collect hwell hshape hinit hfields hbound
      (ParameterParser.build_of_silent hsilent) hothers
  case nested =>
    intro location allowEmpty p hp
    obtain ⟨hsame, _, hfields⟩ := nestedBinder_eq_ok hp
    obtain rfl := Except.ok.inj (hshape.symm.trans hsame)
    refine ⟨hfields, fun raw bound hbound hnone hothers => ?_⟩
    exact Binding.leftOut_collect hwell hshape hinit hfields hbound
      (FlatParser.build_of_get? _ hnone) hothers

/-- A model of parameters: one that must be given, one with a default and one that may be null. -/
def Classes.listing : Classes :=
  let query : Note := .parameter { location := .query }
  ({} : Classes).define
    { name := "Listing", body := .model false [],
      fields := [
        { name := "sort", default := .required, hint := .annotated (.builtin .text) [query] },
        { name := "limit", default := .value (.int 10),
          hint := .annotated (.builtin .integer) [query] },
        { name := "after", default := .required,
          hint := .annotated (.union false [.builtin .text, .noneType]) [query] }] }

/-- Document, binder and reader agree about a model of parameters. -/
theorem Classes.Described.presenceAgrees_listing :
    ∃ shape returned b, Classes.listing.shape "Listing" = .ok shape ∧
      (BuildCall.performAll Classes.listing [.hint (.named "Listing")]).run {} =
        .ok returned b ∧
      Classes.listing.PresenceAgrees b "Listing" shape := by
  have hdescribed : Classes.listing.Described := .define .empty rfl (by simp)
  obtain ⟨shape, hshape, hnames⟩ : ∃ shape, Classes.listing.shape "Listing" = .ok shape ∧
      shape.fields.map (·.initName) = ["sort", "limit", "after"] := ⟨_, rfl, rfl⟩
  obtain ⟨returned, b, hrun⟩ : ∃ returned b,
      (BuildCall.performAll Classes.listing [.hint (.named "Listing")]).run {} =
        .ok returned b := ⟨_, _, rfl⟩
  have hcalls : ∀ call ∈ [BuildCall.hint (.named "Listing")], call.IsProper Classes.listing := by
    simp [BuildCall.IsProper]
  have hmodel : Classes.listing.isModel "Listing" = true →
      (shape.fields.map (·.initName)).Nodup := by
    rw [hnames]
    decide
  exact ⟨shape, returned, b, hshape, hrun,
    presenceAgrees hdescribed [] rfl hshape hmodel hcalls hrun⟩

/-- A record with a default that is not finite, and one that a factory makes. -/
def Classes.unbounded : Classes :=
  ({} : Classes).define
    { name := "Limit", body := .record false,
      fields := [
        { name := "x", hint := .builtin .number,
          default := .value (.number (.float (.infinite false))) },
        { name := "id", hint := .builtin .text, default := .made (.text "a") (.text "b") }] }

/-- A default that is not finite is written as null in a document, whereas the attribute that takes
it is written as a number. A default that a factory makes is documented as it was made for the
declaration, whereas the attribute is what the factory makes for the record. -/
theorem Classes.exists_default_unlike_document :
    let infinite : Number := .float (.infinite false)
    ∃ returned b s properties x id attributes,
      (BuildCall.performAll Classes.unbounded [.hint (.named "Limit")]).run {} = .ok returned b ∧
      b.registry.schema? "Limit" = some s ∧ s.properties = some properties ∧
      (Table.get? "x" properties = some x ∧ x.toJson.member? "default" = some .null) ∧
      (Table.get? "id" properties = some id ∧ id.toJson.member? "default" = some (.text "a")) ∧
      Body.readValue Classes.unbounded (.leaf (.record "Limit") false []) (.object []) "" =
        .ok (.record "Limit" attributes) ∧
      (Table.get? "x" attributes = some (.number infinite) ∧
        Body.toJson Classes.unbounded (.number infinite) = .ok (.number infinite)) ∧
      Table.get? "id" attributes = some (.text "b") :=
  ⟨_, _, _, _, _, _, _, rfl, rfl, rfl, ⟨rfl, rfl⟩, ⟨rfl, rfl⟩, rfl, ⟨rfl, rfl⟩, rfl⟩

end HttpContract
