import HttpContract.Schema.Parameter
import HttpContract.Proofs.Resolving
import HttpContract.Proofs.Hierarchies
import HttpContract.Proofs.Schema.Components

/-!
# What documents say about presence

The schema of a record lists the fields that must be given, and shows a default for a field that has
one. The parameter objects of a binder say the same about the same fields. What is written of them
has a member `default` just where there is a default.
-/

namespace HttpContract

/-- The member of an object under a key. -/
def Json.member? (key : String) : Json → Option Json
  | .object members => Table.get? key members
  | _ => none

/-- A member that is written when it has a value is found under its own key. -/
theorem Json.get?_optional (key other : String) (value : Option Json) :
    Table.get? other (Json.optional key value) = if key = other then value else none := by
  cases value with
  | none => simp [Json.optional, Table.get?]
  | some j => simp [Json.optional, Table.get?]

/-- A flag is found under its own key only. -/
theorem Json.get?_flag {key other : String} (hne : key ≠ other) (value : Bool) :
    Table.get? other (Json.flag key value) = none := by
  cases value <;> simp [Json.flag, Table.get?, hne]

/-- A list of items is found under its own key only. -/
theorem Json.get?_nonempty {key other : String} (hne : key ≠ other) (items : List Json) :
    Table.get? other (Json.nonempty key items) = none := by
  cases items <;> simp [Json.nonempty, Table.get?, hne]

/-- The type of a schema is written by its word, and the default and the listed values as far as
they are finite. -/
theorem Schema.member?_toJson (s : Schema) :
    s.toJson.member? "type" = s.type.map (fun type => .text type.word) ∧
      s.toJson.member? "default" = s.default.map Json.finiteOnly ∧
      s.toJson.member? "enum" =
        s.enumeration.map fun values => .array (Json.finiteItems values) := by
  obtain ⟨reference, type, format, nullable, default, enumeration, limits, items, uniqueItems,
    properties, required, additionalProperties, allOf, oneOf, discriminator⟩ := s
  unfold toJson
  dsimp only [Json.member?]
  -- Only three members are written under a condition of their own.
  simp [Table.get?_append, Json.get?_optional, Json.get?_flag, Json.get?_nonempty]
  cases items <;> cases properties <;> cases additionalProperties <;> simp [Table.get?]

/-- The default of a schema is written, as far as it is finite. -/
theorem Schema.member?_default_toJson (s : Schema) :
    s.toJson.member? "default" = s.default.map Json.finiteOnly :=
  s.member?_toJson.2.1

/-- The default of a parameter object is written, as far as it is finite. -/
theorem Parameter.member?_default_toJson (p : Parameter) :
    p.toJson.member? "default" = p.default.map Json.finiteOnly := by
  rw [toJson, Json.member?]
  simp [Table.get?_append, Json.get?_optional, Json.get?_flag, Table.get?]

/-- What a document says about the default of a field: nothing where there is none, and else its
JSON form, which is written as far as it is finite. -/
structure Field.Documents (C : Classes) (f : Field) (documented : Option Json) (written : Json) :
    Prop where
  absent : f.default = none → documented = none
  present : ∀ value, f.default = some value →
    ∃ j, Body.toJson C value = .ok j ∧ documented = some j
  written : written.member? "default" = documented.map Json.finiteOnly

/-- Laying something on top of a schema without default gives it the default that is laid on top. -/
theorem Schema.default_decorate {s : Schema} (hs : s.default = none) (d : Decoration) :
    (s.decorate d).default = d.default := by
  unfold decorate
  split
  · rename_i hempty
    have hnone : d.default = none := by
      simp only [Decoration.isEmpty, Bool.and_eq_true, Option.isNone_iff_eq_none] at hempty
      exact hempty.2
    rw [hs, hnone]
  · split
    · simp [withDecoration]
    · simp [withDecoration, hs]

/-- The schema of a type has no default. -/
theorem TypeInfo.default_dress (type : TypeInfo) {s : Schema} (hs : s.default = none) :
    (type.dress s).default = none := by
  cases type with
  | leaf form nullable notes => exact Schema.default_decorate hs _
  | array container item nullable notes | map item nullable notes =>
    exact Schema.default_decorate rfl _

namespace Classes

variable {C : Classes} {className : String} {shape : Shape}

/-- The schema of a form has no default. -/
theorem default_plainSchema (form : Leaf) : (C.plainSchema form).default = none := by
  cases form with
  | scalar type => cases type <;> rfl
  | enumeration name | record name | polymorphic name | any => rfl

/-- A default that is documented is the JSON form of the value. -/
theorem toJson_of_defaultJson {f : Field} {value : Value} {j : Json}
    (h : SchemaBuilder.defaultJson C f value = .ok j) : Body.toJson C value = .ok j := by
  unfold SchemaBuilder.defaultJson at h
  split at h
  · cases h
  · exact h

/-- The property of a field documents its default. -/
theorem documents_of_propertyOf {f : Field} {s : Schema} (h : C.propertyOf f = .ok s) :
    f.Documents C s.default s.toJson := by
  have htype : (C.schemaOf f.type).default = none :=
    f.type.default_dress (default_plainSchema f.type.core)
  refine ⟨fun hnone => ?_, fun value hvalue => ?_, s.member?_default_toJson⟩
  · rw [propertyOf, hnone] at h
    cases h
    exact htype
  · rw [propertyOf, hvalue] at h
    obtain ⟨j, hj, h⟩ := bind_eq_ok_iff.mp h
    cases h
    exact ⟨j, toJson_of_defaultJson hj, Schema.default_decorate htype _⟩

/-- A field must be given when null is not allowed and there is no default. -/
theorem required_iff (f : Field) : f.required = true ↔ f.nullable = false ∧ f.default = none := by
  simp [Field.required]

/-- Only the body of a record has properties. -/
theorem eq_record_of_properties {form : Leaf} {s : Schema} (hs : C.bodyOf form = .ok s)
    (hproperties : s.properties ≠ none) : form = .record form.label := by
  cases form with
  | record name => rfl
  | scalar type =>
    cases hs
    cases type <;> exact absurd rfl hproperties
  | any =>
    cases hs
    exact absurd rfl hproperties
  | enumeration name | polymorphic name =>
    obtain ⟨_, _, hs⟩ := bind_eq_ok_iff.mp hs
    cases hs
    exact absurd rfl hproperties

/-- The body of a record lists the fields that must be given, and has a property for each field that
documents its default. -/
theorem presence_bodyOf (hcurrent : C.Current) (hshape : C.shape className = .ok shape) {s : Schema}
    (hs : C.bodyOf (.record className) = .ok s) :
    ∃ properties, s.properties = some properties ∧ ∀ f ∈ shape.fields,
      (f.wireName ∈ s.required ↔ f.nullable = false ∧ f.default = none) ∧
        ∃ property, Table.get? f.wireName properties = some property ∧
          f.Documents C property.default property.toJson := by
  obtain ⟨parent, other, fields, hparent, hother, hfields, rfl⟩ := bodyOf_record_eq_ok hs
  rw [hshape] at hother
  cases hother
  obtain ⟨_, _, hwire⟩ := shape_eq_ok hshape
  refine ⟨_, rfl, fun f hf => ?_⟩
  -- The tag in front has a name of its own.
  have htag : ∀ h, parent = some h → h.discriminator ≠ f.wireName := by
    rintro h rfl
    obtain ⟨hname, base, hbase⟩ := exists_hierarchy_of_parent hparent
    exact (wireName_ne_discriminator hcurrent hbase hname hshape hf).symm
  constructor
  · rw [← required_iff]
    constructor
    · intro hmem
      rcases List.mem_append.mp hmem with hmem | hmem
      · obtain ⟨entry, hentry, hname⟩ := List.mem_map.mp hmem
        obtain ⟨h, hh, rfl⟩ := List.mem_map.mp hentry
        exact absurd hname (htag h (Option.mem_toList.mp hh))
      · obtain ⟨g, hg, hname⟩ := List.mem_map.mp hmem
        obtain ⟨hg, hrequired⟩ := List.mem_filter.mp hg
        rwa [← List.inj_on_of_nodup_map hwire hg hf hname]
    · intro hrequired
      exact List.mem_append_right _ (List.mem_map_of_mem (List.mem_filter.mpr ⟨hf, hrequired⟩))
  · obtain ⟨property, hproperty, hget⟩ := get?_propertiesOf hfields hwire hf
    refine ⟨property, ?_, documents_of_propertyOf hproperty⟩
    rw [Table.get?_append, hget]
    cases parent with
    | none => rfl
    | some h => simp [Table.get?, htag h rfl]

end Classes

namespace Parameter

variable {C : Classes}

/-- What the parameter object of a field says about presence. -/
structure Presents (C : Classes) (f : Field) (p : Parameter) : Prop where
  required : p.required = true ↔ f.nullable = false ∧ f.default = none
  default : f.Documents C p.default p.toJson
  schema : f.Documents C p.schema.default p.schema.toJson

/-- A parameter object that is given the default of a field says about presence what the field does.
-/
theorem makes_described {f : Field} {documented : Option Json} {describe : Schema → Parameter}
    (hrequired : ∀ s, (describe s).required = f.required)
    (hdefault : ∀ s, (describe s).default = documented) (hschema : ∀ s, (describe s).schema = s)
    (habsent : f.default = none → documented = none)
    (hpresent : ∀ value, f.default = some value →
      ∃ j, Body.toJson C value = .ok j ∧ documented = some j) :
    SchemaBuilder.Makes C (SchemaBuilder.ofField C f >>= fun s => pure (describe s)) [f.type.core]
      (Presents C f) := by
  refine (SchemaBuilder.Makes.ofField f).bindLast fun s hs => .pure ⟨?_, ?_, ?_⟩
  · rw [hrequired]
    exact Classes.required_iff f
  · refine ⟨?_, ?_, member?_default_toJson _⟩
    · rwa [hdefault]
    · rwa [hdefault]
  · rw [hschema]
    exact Classes.documents_of_propertyOf hs

/-- The parameter object of a bound field says about presence what the field does. -/
theorem makes_ofBound (bound : BoundField ParameterParser) :
    SchemaBuilder.Makes C (ofBound C bound) [bound.field.type.core] (Presents C bound.field) := by
  unfold ofBound
  dsimp only
  split
  · rename_i hnone
    have hgiven : SchemaBuilder.Makes C (pure none) [] (· = (none : Option Json)) := .pure rfl
    refine hgiven.bind [bound.field.type.core] fun documented hdocumented => ?_
    refine makes_described (fun _ => rfl) (fun _ => rfl) (fun _ => rfl) (fun _ => hdocumented) ?_
    rw [hnone]
    simp
  · rename_i value hvalue
    refine (SchemaBuilder.Makes.ask _).bind [bound.field.type.core] fun _ _ => ?_
    refine (SchemaBuilder.Makes.require _).bind [bound.field.type.core] fun j hj => ?_
    have hgiven : SchemaBuilder.Makes C (pure (some j)) [] (· = some j) := .pure rfl
    refine hgiven.bind [bound.field.type.core] fun documented hdocumented => ?_
    refine makes_described (fun _ => rfl) (fun _ => rfl) (fun _ => rfl) ?_ fun other hother => ?_
    · rw [hvalue]
      simp
    · obtain rfl : value = other := Option.some.inj (hvalue.symm.trans hother)
      exact ⟨j, Classes.toJson_of_defaultJson hj, hdocumented⟩

/-- The parameter objects of bound fields say about presence what the fields do, one by one. -/
theorem makes_ofEach (bounds : List (BoundField ParameterParser)) :
    SchemaBuilder.Makes C (ofEach C bounds) (bounds.map (·.field.type.core))
      (List.Forall₂ (Presents C) (bounds.map (·.field))) := by
  induction bounds with
  | nil => exact .pure .nil
  | cons bound rest ih =>
    exact (makes_ofBound bound).bind _ fun p hp => ih.bindLast fun others hothers =>
      .pure (.cons hp hothers)

end Parameter

end HttpContract
