import HttpContract.Schema.Builder
import HttpContract.Proofs.Outcome
import HttpContract.Proofs.Schema.References
import HttpContract.Proofs.Schema.Meeting

/-!
# What schemas say

The schema of a type, of a field and the body of a class as functions of the described classes
alone, without a builder or a registry. A body points to exactly the classes that the form leads to.
-/

namespace HttpContract

/-- The schema of a type around the schema of the form at its heart. -/
def TypeInfo.dress : TypeInfo → Schema → Schema
  | .leaf _ nullable notes, s =>
    s.decorate { limits := schemaAttributes (constraintsIn notes), nullable }
  | .array container item nullable notes, s =>
    let items := (item.dress s).decorate { limits := schemaAttributes (constraintsIn notes) }
    let uniqueItems := container = .set || container = .frozenset
    ({ type := some .array, items := some items, uniqueItems } : Schema).decorate { nullable }
  | .map item nullable notes, s =>
    ({ type := some .object, additionalProperties := some (item.dress s) } : Schema).decorate
      { limits := schemaAttributes (constraintsIn notes), nullable }

namespace Classes

/-- The schema of a form where it is used: a class is referred to. -/
def plainSchema (C : Classes) : Leaf → Schema
  | .scalar s => SchemaBuilder.scalarSchema s
  | .any => {}
  | .enumeration name | .record name | .polymorphic name => .ofReference (C.schemaNameOf name)

/-- The schema of a type. -/
def schemaOf (C : Classes) (type : TypeInfo) : Schema := type.dress (C.plainSchema type.core)

/-- The schema of a field as a property. -/
def propertyOf (C : Classes) (f : Field) : Except Failure Schema :=
  match f.default with
  | none => .ok (C.schemaOf f.type)
  | some value => do
    let default ← SchemaBuilder.defaultJson C f value
    return (C.schemaOf f.type).decorate { default := some default }

/-- The properties that fields become. -/
def propertiesOf (C : Classes) : List Field → Except Failure (List (String × Schema))
  | [] => .ok []
  | f :: rest => do
    let s ← C.propertyOf f
    return (f.wireName, s) :: (← C.propertiesOf rest)

/-- The values that an enumeration lists in its schema. -/
def listedValues (C : Classes) : List (String × Value) → Except Failure (List Json)
  | [] => .ok []
  | (_, value) :: rest => do
    let j ← Body.toJson C value
    return j :: (← C.listedValues rest)

/-- The body of a named form. -/
def bodyOf (C : Classes) : Leaf → Except Failure Schema
  | .enumeration name => do
    let values ← C.listedValues (((C.enumeration? name).map (·.members)).getD [])
    return { type := some (SchemaBuilder.valuesType values), enumeration := some values }
  | .record name => do
    let parent ← Body.configured (C.parent name)
    let shape ← Body.configured (C.shape name)
    let fields ← C.propertiesOf shape.fields
    let required := (shape.fields.filter (·.required)).map (·.wireName)
    match parent with
    | none => return { type := some .object, properties := some fields, required }
    | some h =>
      let tag : Schema :=
        { type := some .text, enumeration := some [.text ((h.nameOf? name).getD name)] }
      return {
        type := some .object
        properties := some ((h.discriminator, tag) :: fields)
        required := h.discriminator :: required }
  | .polymorphic base => do
    let h ← Body.configured (C.hierarchy base)
    let oneOf := h.variants.map fun (_, className) => C.plainSchema (.record className)
    let mapping := h.variants.map fun (name, className) => (name, C.schemaNameOf className)
    return { oneOf, discriminator := some ⟨h.discriminator, mapping⟩ }
  | .scalar s => .ok (SchemaBuilder.scalarSchema s)
  | .any => .ok {}

/-- The names of the schemas of the classes among forms. -/
def schemaNames (C : Classes) (forms : List Leaf) : List String :=
  (forms.filter (·.isNamed)).map fun form => C.schemaNameOf form.label

/-- The classes among forms have their names among those of the schemas. -/
theorem mem_schemaNames_iff {C : Classes} {forms : List Leaf} {name : String} :
    name ∈ C.schemaNames forms ↔
      ∃ form ∈ forms, form.isNamed = true ∧ C.schemaNameOf form.label = name := by
  simp [schemaNames, and_assoc]

end Classes

/-- A type points to what the form at its heart points to. -/
@[simp] theorem TypeInfo.targets_dress (type : TypeInfo) (s : Schema) :
    (type.dress s).targets = s.targets := by
  induction type with
  | leaf form nullable notes => simp [dress]
  | array container item nullable notes ih =>
    rw [dress, Schema.targets_decorate, Schema.targets_eq]
    simp [Schema.ownTargets, Schema.children, ih]
  | map item nullable notes ih =>
    rw [dress, Schema.targets_decorate, Schema.targets_eq]
    simp [Schema.ownTargets, Schema.children, ih]

/-- Around the form at its heart a type leaves references apart. -/
theorem TypeInfo.apart_dress (type : TypeInfo) {s : Schema} (hs : s.Apart) :
    (type.dress s).Apart := by
  induction type with
  | leaf form nullable notes => exact hs.decorate _
  | array container item nullable notes ih =>
    refine (Schema.apart_of_children rfl rfl fun c hc => ?_).decorate _
    have hc : c = (item.dress s).decorate { limits := schemaAttributes (constraintsIn notes) } := by
      simpa [Schema.children] using hc
    exact hc ▸ ih.decorate _
  | map item nullable notes ih =>
    refine (Schema.apart_of_children rfl rfl fun c hc => ?_).decorate _
    have hc : c = item.dress s := by simpa [Schema.children] using hc
    exact hc ▸ ih

namespace Classes

variable {C : Classes}

/-- A scalar schema points nowhere. -/
theorem targets_scalarSchema (s : Scalar) : (SchemaBuilder.scalarSchema s).targets = [] := by
  cases s <;> rfl

/-- A form points to its class, if it is one. -/
theorem targets_plainSchema (C : Classes) (form : Leaf) :
    (C.plainSchema form).targets = C.schemaNames [form] := by
  cases form with
  | scalar s => exact targets_scalarSchema s
  | any => rfl
  | enumeration name | record name | polymorphic name => exact Schema.targets_ofReference _

/-- The schema of a form is a reference alone, or none at all. -/
theorem apart_plainSchema (C : Classes) (form : Leaf) : (C.plainSchema form).Apart := by
  cases form with
  | scalar s =>
    cases s <;> exact Schema.apart_of_children rfl rfl fun c hc => (nomatch hc)
  | any => exact Schema.apart_of_children rfl rfl fun c hc => (nomatch hc)
  | enumeration name | record name | polymorphic name => exact Schema.apart_ofReference _

/-- A type points to the class at its heart. -/
theorem targets_schemaOf (C : Classes) (type : TypeInfo) :
    (C.schemaOf type).targets = C.schemaNames [type.core] := by
  rw [schemaOf, TypeInfo.targets_dress, targets_plainSchema]

/-- In the schema of a type references stand apart. -/
theorem apart_schemaOf (C : Classes) (type : TypeInfo) : (C.schemaOf type).Apart :=
  type.apart_dress (C.apart_plainSchema _)

/-- The schema of a type has bare references. -/
theorem bareReferences_schemaOf (C : Classes) (type : TypeInfo) :
    (C.schemaOf type).BareReferences :=
  (C.apart_schemaOf type).bareReferences

/-- The schema of a field is that of its type, perhaps decorated with a default. -/
theorem propertyOf_cases {f : Field} {s : Schema} (h : C.propertyOf f = .ok s) :
    s = C.schemaOf f.type ∨ ∃ default, s = (C.schemaOf f.type).decorate { default } := by
  unfold propertyOf at h
  split at h
  · cases h
    exact Or.inl rfl
  · obtain ⟨default, _, hs⟩ := bind_eq_ok_iff.mp h
    cases hs
    exact Or.inr ⟨some default, rfl⟩

/-- A property points to the class at the heart of its field's type. -/
theorem targets_propertyOf {f : Field} {s : Schema} (h : C.propertyOf f = .ok s) :
    s.targets = C.schemaNames [f.type.core] := by
  rcases propertyOf_cases h with rfl | ⟨default, rfl⟩
  · exact C.targets_schemaOf f.type
  · rw [Schema.targets_decorate, targets_schemaOf]

/-- In a property references stand apart. -/
theorem apart_propertyOf {f : Field} {s : Schema} (h : C.propertyOf f = .ok s) : s.Apart := by
  rcases propertyOf_cases h with rfl | ⟨default, rfl⟩
  · exact C.apart_schemaOf f.type
  · exact (C.apart_schemaOf f.type).decorate _

/-- A property has bare references. -/
theorem bareReferences_propertyOf {f : Field} {s : Schema} (h : C.propertyOf f = .ok s) :
    s.BareReferences :=
  (apart_propertyOf h).bareReferences

/-- The properties of several fields are that of the first and those of the others. -/
theorem propertiesOf_cons_iff {f : Field} {rest : List Field}
    {properties : List (String × Schema)} :
    C.propertiesOf (f :: rest) = .ok properties ↔
      ∃ s others, C.propertyOf f = .ok s ∧ C.propertiesOf rest = .ok others ∧
        (f.wireName, s) :: others = properties := by
  rw [propertiesOf, bind_eq_ok_iff]
  constructor
  · rintro ⟨s, hs, h⟩
    obtain ⟨others, hothers, h⟩ := bind_eq_ok_iff.mp h
    exact ⟨s, others, hs, hothers, Except.ok.inj h⟩
  · rintro ⟨s, others, hs, hothers, rfl⟩
    exact ⟨s, hs, bind_eq_ok_iff.mpr ⟨others, hothers, rfl⟩⟩

/-- The properties of fields have the fields' names for clients. -/
theorem keys_propertiesOf {fields : List Field} {properties : List (String × Schema)}
    (hproperties : C.propertiesOf fields = .ok properties) :
    Table.keys properties = fields.map (·.wireName) := by
  induction fields generalizing properties with
  | nil =>
    cases hproperties
    rfl
  | cons f rest ih =>
    obtain ⟨s, others, _, hothers, rfl⟩ := propertiesOf_cons_iff.mp hproperties
    rw [List.map_cons, ← ih hothers]
    rfl

/-- The property of a field is found under its name for clients. -/
theorem get?_propertiesOf {fields : List Field} {properties : List (String × Schema)}
    (h : C.propertiesOf fields = .ok properties) (hwire : (fields.map (·.wireName)).Nodup)
    {f : Field} (hf : f ∈ fields) :
    ∃ s, C.propertyOf f = .ok s ∧ Table.get? f.wireName properties = some s := by
  induction fields generalizing properties with
  | nil => cases hf
  | cons first rest ih =>
    rw [List.map_cons, List.nodup_cons] at hwire
    obtain ⟨s, others, hs, hothers, rfl⟩ := propertiesOf_cons_iff.mp h
    rcases List.mem_cons.mp hf with rfl | hf
    · exact ⟨s, hs, by simp [Table.get?]⟩
    · have hne : first.wireName ≠ f.wireName := fun heq =>
        hwire.1 (List.mem_map.mpr ⟨f, hf, heq.symm⟩)
      rw [Table.get?, if_neg hne]
      exact ih hothers hwire.2 hf

/-- Properties point to the classes at the hearts of the fields' types. -/
theorem targets_propertiesOf {fields : List Field} {properties : List (String × Schema)}
    (h : C.propertiesOf fields = .ok properties) :
    (properties.map (·.2)).flatMap Schema.targets = C.schemaNames (fields.map (·.type.core)) := by
  induction fields generalizing properties with
  | nil =>
    cases h
    rfl
  | cons f rest ih =>
    obtain ⟨s, others, hs, hothers, rfl⟩ := propertiesOf_cons_iff.mp h
    rw [List.map_cons, List.flatMap_cons, ih hothers, targets_propertyOf hs]
    simp only [schemaNames, List.map_cons, List.filter_cons, List.filter_nil]
    split <;> rfl

/-- Properties are those of fields. -/
theorem propertyOf_of_mem {fields : List Field} {properties : List (String × Schema)}
    (h : C.propertiesOf fields = .ok properties) :
    ∀ p ∈ properties, ∃ f ∈ fields, C.propertyOf f = .ok p.2 := by
  induction fields generalizing properties with
  | nil =>
    cases h
    simp
  | cons f rest ih =>
    obtain ⟨s, others, hs, hothers, rfl⟩ := propertiesOf_cons_iff.mp h
    intro p hp
    rcases List.mem_cons.mp hp with rfl | hp
    · exact ⟨f, List.mem_cons_self, hs⟩
    · obtain ⟨g, hg, hproperty⟩ := ih hothers p hp
      exact ⟨g, List.mem_cons_of_mem _ hg, hproperty⟩

/-- The body of a record is an object of its properties, a variant having the tag in front. -/
theorem bodyOf_record_eq_ok {name : String} {s : Schema} (h : C.bodyOf (.record name) = .ok s) :
    ∃ parent shape fields, C.parent name = .ok parent ∧ C.shape name = .ok shape ∧
      C.propertiesOf shape.fields = .ok fields ∧
      let tags := parent.toList.map fun h => (h.discriminator,
        ({ type := some .text, enumeration := some [.text ((h.nameOf? name).getD name)] } : Schema))
      s = {
        type := some .object
        properties := some (tags ++ fields)
        required := tags.map (·.1) ++ (shape.fields.filter (·.required)).map (·.wireName) } := by
  obtain ⟨parent, hparent, h⟩ := bind_eq_ok_iff.mp h
  obtain ⟨shape, hshape, h⟩ := bind_eq_ok_iff.mp h
  obtain ⟨fields, hfields, h⟩ := bind_eq_ok_iff.mp h
  refine ⟨parent, shape, fields, mapError_eq_ok_iff.mp hparent, mapError_eq_ok_iff.mp hshape,
    hfields, ?_⟩
  cases parent with
  | none =>
    cases h
    rfl
  | some hierarchy =>
    cases h
    rfl

/-- The body of a class points to exactly the classes that its form leads to. -/
theorem mem_targets_bodyOf {form : Leaf} {s : Schema} (h : C.bodyOf form = .ok s) {name : String} :
    name ∈ s.targets ↔ name ∈ C.schemaNames (C.below form) := by
  cases form with
  | scalar type =>
    cases h
    rw [targets_scalarSchema]
    rfl
  | any =>
    cases h
    rfl
  | enumeration className =>
    obtain ⟨values, _, h⟩ := bind_eq_ok_iff.mp h
    cases h
    rfl
  | record className =>
    obtain ⟨parent, shape, fields, _, hshape, hfields, rfl⟩ := bodyOf_record_eq_ok h
    rw [below, hshape, ← targets_propertiesOf hfields, Schema.targets_eq]
    cases parent with
    | none => simp [Schema.ownTargets, Schema.children]
    | some hierarchy =>
      have htag (values : List Json) :
          ({ type := some .text, enumeration := some values } : Schema).targets = [] := rfl
      simp [Schema.ownTargets, Schema.children, htag]
  | polymorphic base =>
    obtain ⟨hierarchy, hhierarchy, h⟩ := bind_eq_ok_iff.mp h
    cases h
    rw [below, mapError_eq_ok_iff.mp hhierarchy, mem_schemaNames_iff, Schema.targets_eq,
      List.mem_append, List.mem_flatMap]
    constructor
    · rintro (hmapped | ⟨c, hc, hname⟩)
      · obtain ⟨_, hentry, rfl⟩ := List.mem_map.mp hmapped
        obtain ⟨v, hv, rfl⟩ := List.mem_map.mp hentry
        exact ⟨.record v.2, List.mem_map_of_mem hv, rfl, rfl⟩
      · have hc : c ∈ hierarchy.variants.map fun v => C.plainSchema (.record v.2) := hc
        obtain ⟨v, hv, rfl⟩ := List.mem_map.mp hc
        rw [targets_plainSchema, mem_schemaNames_iff] at hname
        obtain ⟨_, hform, _, rfl⟩ := hname
        rw [List.mem_singleton] at hform
        subst hform
        exact ⟨.record v.2, List.mem_map_of_mem hv, rfl, rfl⟩
    · rintro ⟨_, hform, _, rfl⟩
      obtain ⟨v, hv, rfl⟩ := List.mem_map.mp hform
      exact Or.inl (List.mem_map.mpr ⟨_, List.mem_map_of_mem hv, rfl⟩)

/-- What stands below the body of a class. -/
inductive BodyPart (C : Classes) : Schema → Prop
  | property {name : String} {shape : Shape} {f : Field} {s : Schema}
      (hshape : C.shape name = .ok shape) (hf : f ∈ shape.fields) (hs : C.propertyOf f = .ok s) :
      BodyPart C s
  | form (form : Leaf) : BodyPart C (C.plainSchema form)
  /-- The values that tell a variant from the others. -/
  | values (values : List Json) : BodyPart C { type := some .text, enumeration := some values }

/-- A body is no reference, wraps none and has no limits of its own, and below it stand its parts
only. -/
theorem bodyOf_eq_ok {form : Leaf} {s : Schema} (h : C.bodyOf form = .ok s) :
    s.reference = none ∧ s.allOf = [] ∧ s.limits = [] ∧ ∀ c ∈ s.children, C.BodyPart c := by
  cases form with
  | scalar type =>
    cases h
    cases type <;> exact ⟨rfl, rfl, rfl, fun c hc => (nomatch hc)⟩
  | any =>
    cases h
    exact ⟨rfl, rfl, rfl, fun c hc => (nomatch hc)⟩
  | enumeration className =>
    obtain ⟨values, _, h⟩ := bind_eq_ok_iff.mp h
    cases h
    exact ⟨rfl, rfl, rfl, fun c hc => (nomatch hc)⟩
  | record className =>
    obtain ⟨parent, shape, fields, _, hshape, hfields, rfl⟩ := bodyOf_record_eq_ok h
    refine ⟨rfl, rfl, rfl, fun c hc => ?_⟩
    simp only [Schema.children, Option.getD_some, List.map_append, List.mem_append,
      List.mem_map, Option.toList_none, List.not_mem_nil, or_false, false_or] at hc
    rcases hc with ⟨_, ⟨hierarchy, _, rfl⟩, rfl⟩ | ⟨p, hp, rfl⟩
    · exact .values _
    · obtain ⟨f, hf, hs⟩ := propertyOf_of_mem hfields p hp
      exact .property hshape hf hs
  | polymorphic base =>
    obtain ⟨hierarchy, _, h⟩ := bind_eq_ok_iff.mp h
    cases h
    refine ⟨rfl, rfl, rfl, fun c hc => ?_⟩
    have hc : ∃ v ∈ hierarchy.variants, C.plainSchema (.record v.2) = c := by
      simpa [Schema.children] using hc
    obtain ⟨v, _, rfl⟩ := hc
    exact .form _

/-- In the body of a class references stand apart. -/
theorem apart_bodyOf {form : Leaf} {s : Schema} (h : C.bodyOf form = .ok s) : s.Apart := by
  obtain ⟨hreference, hallOf, _, hparts⟩ := bodyOf_eq_ok h
  refine Schema.apart_of_children hreference hallOf fun c hc => ?_
  cases hparts c hc with
  | property _ _ hs => exact apart_propertyOf hs
  | form form => exact C.apart_plainSchema form
  | values values => exact Schema.apart_of_children rfl rfl fun c hc => (nomatch hc)

/-- The body of a class has bare references. -/
theorem bareReferences_bodyOf {form : Leaf} {s : Schema} (h : C.bodyOf form = .ok s) :
    s.BareReferences :=
  (apart_bodyOf h).bareReferences

end Classes

end HttpContract
