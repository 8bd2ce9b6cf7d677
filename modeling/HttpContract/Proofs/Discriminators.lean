import HttpContract.Proofs.Body.RoundTrip
import HttpContract.Proofs.Schema.Components

/-!
# Discriminators

The schema of a base and its reader start from the base and know all variants. The schema of a
variant and its writer start from the variant and look for a base: the first marked ancestor that
the class names among its own bases. The two sides agree on a variant whose first marked base has
the same discriminator, as far as the body under its name is that of a record.
-/

namespace HttpContract

namespace Classes

variable {C : Classes} {base className : String} {h : Hierarchy}

/-- Adding candidates adds each of them by its name for clients. -/
theorem variants_foldlM {discriminator : String} {candidates : List String}
    {variants after : Table String String}
    (hfold : candidates.foldlM (C.addVariant base discriminator) variants = .ok after) :
    after = variants ++ candidates.map fun name => (C.wireNameOf name, name) := by
  induction candidates generalizing variants with
  | nil =>
    cases hfold
    simp
  | cons name rest ih =>
    obtain ⟨between, hadd, hrest⟩ := bind_eq_ok_iff.mp hfold
    obtain ⟨rfl, _, _⟩ := addVariant_eq_ok hadd
    rw [ih hrest, List.append_assoc]
    rfl

/-- The variants of a base are the classes that name it. -/
theorem nameOf?_isSome_iff (hcurrent : C.Current) (hh : C.hierarchy base = .ok h) :
    (h.nameOf? className).isSome = true ↔ className ∈ C.subclasses base := by
  have hvariants : h.variants = (C.subclasses base).map fun name => (C.wireNameOf name, name) :=
    variants_foldlM (presentHierarchy_eq_ok (hcurrent.hierarchy_eq base ▸ hh)).2.2
  rw [Hierarchy.nameOf?, Option.isSome_map, List.find?_isSome, hvariants]
  simp

/-- The first marked ancestor that a class names among its bases. -/
def firstBase? (C : Classes) (className : String) : Option String :=
  (C.ancestry className).tail.find? fun ancestor =>
    C.isPolymorphic ancestor && (C.subclasses ancestor).contains className

/-- The hierarchy that a class finds is that of its first marked base. -/
theorem parent_eq_some (hcurrent : C.Current) (hdeclared : C.HierarchiesDeclared) {first : String}
    (hfirst : C.firstBase? className = some first) :
    ∃ own, C.hierarchy first = .ok own ∧ C.parent className = .ok (some own) := by
  unfold firstBase? at hfirst
  unfold parent
  generalize (C.ancestry className).tail = ancestors at hfirst ⊢
  induction ancestors with
  | nil => cases hfirst
  | cons ancestor rest ih =>
    rw [parentAmong]
    rw [List.find?_cons] at hfirst
    cases hmarked : C.isPolymorphic ancestor with
    | false =>
      rw [hmarked, Bool.false_and] at hfirst
      exact ih hfirst
    | true =>
      obtain ⟨own, hown⟩ := hdeclared ancestor hmarked
      rw [hown]
      cases hnamed : (C.subclasses ancestor).contains className with
      | true =>
        rw [hmarked, hnamed] at hfirst
        cases hfirst
        have hsome := (nameOf?_isSome_iff hcurrent hown).mpr (List.contains_iff_mem.mp hnamed)
        exact ⟨own, hown, by simp [hsome]⟩
      | false =>
        rw [hmarked, hnamed] at hfirst
        have hnone : ¬(own.nameOf? className).isSome = true := by
          rw [nameOf?_isSome_iff hcurrent hown, ← List.contains_iff_mem, hnamed]
          simp
        obtain ⟨found, hfound, hparent⟩ := ih hfirst
        exact ⟨found, hfound, by simpa [hnone] using hparent⟩

/-- A variant has a first marked base, by whose hierarchy it has the same name. -/
theorem exists_firstBase (hC : C.WellFormed) (hcurrent : C.Current)
    (hdeclared : C.HierarchiesDeclared) (hh : C.hierarchy base = .ok h) {tag : String}
    (hv : (tag, className) ∈ h.variants) :
    ∃ first own, C.firstBase? className = some first ∧ C.hierarchy first = .ok own ∧
      C.parent className = .ok (some own) ∧ own.nameOf? className = some tag := by
  have hsub := (hcurrent.variantsDeclared hh).subclasses _ hv
  have hsome : (C.firstBase? className).isSome = true := by
    rw [firstBase?, List.find?_isSome]
    refine ⟨base, hC.mem_tail_ancestry hsub, ?_⟩
    simpa [hcurrent.isPolymorphic hh] using hsub
  obtain ⟨first, hfirst⟩ := Option.isSome_iff_exists.mp hsome
  obtain ⟨own, hown, hparent⟩ := parent_eq_some hcurrent hdeclared hfirst
  refine ⟨first, own, hfirst, hown, hparent, ?_⟩
  have hmem : className ∈ C.subclasses first := by
    have := List.find?_some hfirst
    simp only [Bool.and_eq_true, List.contains_iff_mem] at this
    exact this.2
  obtain ⟨name, hname⟩ :=
    Option.isSome_iff_exists.mp ((nameOf?_isSome_iff hcurrent hown).mpr hmem)
  have hfound : name = C.wireNameOf className :=
    (hcurrent.variantsDeclared hown).names _ (Hierarchy.mem_of_nameOf? hname)
  have hgiven : tag = C.wireNameOf className := (hcurrent.variantsDeclared hh).names _ hv
  rw [hname, hfound, hgiven]

end Classes

/-- The objects of a schema say under a property which variant they are. -/
structure Schema.Tags (s : Schema) (property tag : String) : Prop where
  object : s.type = some .object
  values : ∃ properties value, s.properties = some properties ∧
    Table.get? property properties = some value ∧ value.enumeration = some [.text tag]
  required : property ∈ s.required

/-- A schema leads from the value of a property to another schema. -/
def Schema.Maps (s : Schema) (property tag name : String) : Prop :=
  ∃ d, s.discriminator = some d ∧ d.property = property ∧ Table.get? tag d.mapping = some name

namespace Classes

variable {C : Classes} {base className : String} {h : Hierarchy}

/-- Only the body of a base has a discriminator. -/
theorem exists_polymorphic_of_discriminator {form : Leaf} {s : Schema} {d : Discriminator}
    (hs : C.bodyOf form = .ok s) (hd : s.discriminator = some d) :
    ∃ name, form = .polymorphic name := by
  cases form with
  | polymorphic name => exact ⟨name, rfl⟩
  | record name =>
    obtain ⟨_, _, _, _, _, _, rfl⟩ := bodyOf_record_eq_ok hs
    cases hd
  | enumeration name =>
    obtain ⟨_, _, hs⟩ := bind_eq_ok_iff.mp hs
    cases hs
    cases hd
  | scalar type =>
    cases hs
    cases type <;> cases hd
  | any =>
    cases hs
    cases hd

/-- Only the body of a record has properties. -/
theorem exists_record_of_properties {form : Leaf} {s : Schema} {properties : List (String × Schema)}
    (hs : C.bodyOf form = .ok s) (hproperties : s.properties = some properties) :
    ∃ name, form = .record name := by
  cases form with
  | record name => exact ⟨name, rfl⟩
  | polymorphic name | enumeration name =>
    obtain ⟨_, _, hs⟩ := bind_eq_ok_iff.mp hs
    cases hs
    cases hproperties
  | scalar type =>
    cases hs
    cases type <;> cases hproperties
  | any =>
    cases hs
    cases hproperties

/-- A body leads from names of variants to schemas if it is that of a base. -/
theorem maps_bodyOf_iff (hcurrent : C.Current) {form : Leaf} {s : Schema}
    (hs : C.bodyOf form = .ok s) (hlabel : form.label = base) (hh : C.hierarchy base = .ok h)
    {tag : String} (hv : (tag, className) ∈ h.variants) :
    s.Maps h.discriminator tag (C.schemaNameOf className) ↔ form = .polymorphic base := by
  constructor
  · rintro ⟨d, hd, _⟩
    obtain ⟨name, rfl⟩ := exists_polymorphic_of_discriminator hs hd
    rw [← hlabel]
    rfl
  · rintro rfl
    obtain ⟨own, hown, hs⟩ := bind_eq_ok_iff.mp hs
    have hown : C.hierarchy base = .ok own := mapError_eq_ok_iff.mp hown
    rw [hh] at hown
    cases hown
    cases hs
    have hvariant := Table.get?_of_mem (hcurrent.variantsDeclared hh).distinct hv
    refine ⟨_, rfl, rfl, (Table.get?_map tag C.schemaNameOf h.variants).trans ?_⟩
    rw [hvariant]
    rfl

/-- The body of a variant's record tells the variant if the hierarchy that it finds has the same
discriminator. -/
theorem tags_bodyOf_record_iff (hcurrent : C.Current) {s : Schema}
    (hs : C.bodyOf (.record className) = .ok s) (hh : C.hierarchy base = .ok h) {tag : String}
    (hv : (tag, className) ∈ h.variants) {own : Hierarchy}
    (hparent : C.parent className = .ok (some own)) (hname : own.nameOf? className = some tag) :
    s.Tags h.discriminator tag ↔ own.discriminator = h.discriminator := by
  obtain ⟨parent, shape, fields, hfound, hshape, hfields, rfl⟩ := bodyOf_record_eq_ok hs
  rw [hparent] at hfound
  cases hfound
  obtain ⟨other, hother, hapart⟩ := (hcurrent.variantsDeclared hh).apart _ hv
  rw [hshape] at hother
  cases hother
  constructor
  · rintro ⟨_, ⟨properties, value, hproperties, hvalue, _⟩, _⟩
    -- No field has the name of the discriminator, so that the tag alone can have it.
    by_contra hne
    cases hproperties
    have hmem : h.discriminator ∈ Table.keys fields := by
      by_contra hnone
      rw [← Table.get?_eq_none_iff] at hnone
      simp [Table.get?, hne, hnone] at hvalue
    rw [keys_propertiesOf hfields] at hmem
    obtain ⟨f, hf, heq⟩ := List.mem_map.mp hmem
    exact hapart f hf heq
  · intro hsame
    let value : Schema :=
      { type := some .text, enumeration := some [.text ((own.nameOf? className).getD className)] }
    refine ⟨rfl, ⟨_, value, rfl, ?_, ?_⟩, ?_⟩
    · simp [Table.get?, hsame, value]
    · simp [value, hname]
    · simp [hsame]

/-- A body under the name of a variant tells the variant if it is that of a record that finds a
hierarchy with the same discriminator. -/
theorem tags_bodyOf_iff (hcurrent : C.Current) {form : Leaf} {s : Schema}
    (hs : C.bodyOf form = .ok s) (hlabel : form.label = className)
    (hh : C.hierarchy base = .ok h) {tag : String} (hv : (tag, className) ∈ h.variants)
    {own : Hierarchy} (hparent : C.parent className = .ok (some own))
    (hname : own.nameOf? className = some tag) :
    s.Tags h.discriminator tag ↔
      form = .record className ∧ own.discriminator = h.discriminator := by
  constructor
  · intro htags
    obtain ⟨properties, _, hproperties, _⟩ := htags.values
    obtain ⟨name, rfl⟩ := exists_record_of_properties hs hproperties
    obtain rfl : name = className := hlabel
    exact ⟨rfl, (tags_bodyOf_record_iff hcurrent hs hh hv hparent hname).mp htags⟩
  · rintro ⟨rfl, hsame⟩
    exact (tags_bodyOf_record_iff hcurrent hs hh hv hparent hname).mpr hsame

/-- A record of a variant is written with the discriminator of the hierarchy that it finds, and with
no other one. -/
theorem get?_discriminator_of_toJson (hcurrent : C.Current) (hh : C.hierarchy base = .ok h)
    {tag : String} (hv : (tag, className) ∈ h.variants) {own : Hierarchy}
    (hparent : C.parent className = .ok (some own)) (hname : own.nameOf? className = some tag)
    {attributes : List (String × Value)} {j : Json}
    (hj : Body.toJson C (.record className attributes) = .ok j) :
    ∃ members, j = .object members ∧ Table.get? h.discriminator members =
      if own.discriminator = h.discriminator then some (.text tag) else none := by
  have hvariants := hcurrent.variantsDeclared hh
  obtain ⟨shape, hshape, hapart⟩ := hvariants.apart _ hv
  have hobject : ∃ members, j = .object members := by
    rw [Body.toJson] at hj
    obtain ⟨members, _, hj⟩ := bind_eq_ok_iff.mp hj
    cases hj
    exact ⟨members, rfl⟩
  obtain ⟨members, rfl⟩ := hobject
  have hwritten := (Body.recordMembers_eq_ok_iff hshape hparent).mp hj
  refine ⟨members, rfl, ?_⟩
  rw [Body.get?_foldlM_writeField hapart hwritten, Body.tagMembers, hname]
  simp [Table.get?]

/-- An object that names a variant is read at the base as it is read at the variant. -/
theorem readValue_of_tag (hcurrent : C.Current) (hh : C.hierarchy base = .ok h) {tag : String}
    (hv : (tag, className) ∈ h.variants) {members : List (String × Json)}
    (htag : Table.get? h.discriminator members = some (.text tag)) (nullable : Bool)
    (notes : List Note) (path : String) :
    Body.readValue C (.leaf (.polymorphic base) nullable notes) (.object members) path =
      Body.readValue C (.leaf (.record className) nullable notes) (.object members) path := by
  have hvariants := hcurrent.variantsDeclared hh
  obtain ⟨shape, hshape, _⟩ := hvariants.apart _ hv
  rw [Body.readValue, Body.readValue, Body.read_polymorphic, Body.read_record,
    Body.readVariant_of_tag hh htag (hvariants.variant?_eq hv) hshape, hshape]
  rfl

/-- How a variant of a base is told: in a document whose schemas are those of the forms met, in what
is written, and in what is read. The hierarchy `h` is that of the base, and `own` the one that the
variant finds by itself. -/
structure Tells (C : Classes) (met : List Leaf) (r : SchemaRegistry) (base : String)
    (h own : Hierarchy) (tag className : String) : Prop where
  /-- The schema under the name of the base leads from the tag to the schema of the variant, unless
  the base was met as a record before. -/
  mapped : base ∈ met.map Leaf.label → ∃ s, r.schema? (C.schemaNameOf base) = some s ∧
    (s.Maps h.discriminator tag (C.schemaNameOf className) ↔ .polymorphic base ∈ met)
  /-- The schema under the name of the variant asks for the tag, unless the variant was met as a
  base before, or finds a hierarchy with another discriminator. -/
  tagged : .polymorphic base ∈ met → ∃ s, r.schema? (C.schemaNameOf className) = some s ∧
    (s.Tags h.discriminator tag ↔
      .record className ∈ met ∧ own.discriminator = h.discriminator)
  /-- A record of the variant is written with the tag, unless the variant finds a hierarchy with
  another discriminator; then it is written without one that the base could read. -/
  written : ∀ attributes j, Body.toJson C (.record className attributes) = .ok j →
    ∃ members, j = .object members ∧ Table.get? h.discriminator members =
      if own.discriminator = h.discriminator then some (.text tag) else none
  /-- Whatever has the tag is read at the base as the variant. -/
  read : ∀ members, Table.get? h.discriminator members = some (.text tag) →
    ∀ nullable notes path,
      Body.readValue C (.leaf (.polymorphic base) nullable notes) (.object members) path =
        Body.readValue C (.leaf (.record className) nullable notes) (.object members) path

end Classes

namespace SchemaRegistry.Holds

variable {C : Classes} {met : List Leaf} {r : SchemaRegistry} {label : String}

/-- A class that was met is found under its name with the body of the form it was met as. -/
theorem exists_bodyOf (hholds : Holds C met r) (hlabel : label ∈ met.map Leaf.label) :
    ∃ form ∈ met, form.label = label ∧ ∃ s, C.bodyOf form = .ok s ∧
      r.schema? (C.schemaNameOf label) = some s := by
  obtain ⟨form, hform, rfl⟩ := List.mem_map.mp hlabel
  obtain ⟨s, hs⟩ := hholds.finished form hform
  exact ⟨form, hform, rfl, s, hs, hholds.schema?_eq hform hs⟩

end SchemaRegistry.Holds

/-- Whatever schemas are made from a table in which every base is declared, a variant of a base is
told alike by the document, the writer and the reader exactly when its first marked base has the
same discriminator and neither class was met in its other role before. -/
theorem BuildCall.tells_performAll {C : Classes} (hC : C.Described) (bases : List String)
    (hdeclared : (C.settle bases).HierarchiesDeclared) {calls : List BuildCall}
    {returned : List Schema} {b : SchemaBuilder}
    (hrun : (performAll (C.settle bases) calls).run {} = .ok returned b) :
    ∃ met, (C.settle bases).Meets [] (forms (C.settle bases) calls) met ∧
      b.registry.entries.map (·.owner) = met.map Leaf.label ∧
      ∀ base h tag className, (C.settle bases).hierarchy base = .ok h →
        (tag, className) ∈ h.variants →
        ∃ first own, (C.settle bases).firstBase? className = some first ∧
          (C.settle bases).hierarchy first = .ok own ∧
          (C.settle bases).Tells met b.registry base h own tag className := by
  have hcurrent := hC.current_settle bases
  obtain ⟨met, hmeets, hholds, howners⟩ := holds_performAll hrun
  refine ⟨met, hmeets, howners, fun base h tag className hh hv => ?_⟩
  have hdistinct : (met.map Leaf.label).Nodup := by
    simpa using hmeets.nodup List.nodup_nil
  -- A class is met as one form only.
  have hsame {form other : Leaf} (hform : form ∈ met) (hlabel : form.label = other.label) :
      form = other ↔ other ∈ met := by
    constructor
    · rintro rfl
      exact hform
    · intro hother
      exact List.inj_on_of_nodup_map hdistinct hform hother hlabel
  obtain ⟨first, own, hfirst, hown, hparent, hname⟩ :=
    Classes.exists_firstBase (hC.wellFormed_settle bases) hcurrent hdeclared hh hv
  refine ⟨first, own, hfirst, hown, ?_⟩
  constructor
  case mapped =>
    intro hbase
    obtain ⟨form, hform, hlabel, s, hs, hfound⟩ := hholds.exists_bodyOf hbase
    refine ⟨s, hfound, ?_⟩
    rw [Classes.maps_bodyOf_iff hcurrent hs hlabel hh hv]
    exact hsame hform hlabel
  case tagged =>
    intro hbase
    have hbelow : .record className ∈ (C.settle bases).below (.polymorphic base) := by
      rw [Classes.below, hh]
      exact List.mem_map_of_mem hv
    have hmet : className ∈ met.map Leaf.label := by
      have := hmeets.below_mem hbase hbelow rfl
      rwa [List.nil_append] at this
    obtain ⟨form, hform, hlabel, s, hs, hfound⟩ := hholds.exists_bodyOf hmet
    refine ⟨s, hfound, ?_⟩
    rw [Classes.tags_bodyOf_iff hcurrent hs hlabel hh hv hparent hname]
    rw [show form = .record className ↔ .record className ∈ met from hsame hform hlabel]
  case written =>
    exact fun attributes j hj =>
      Classes.get?_discriminator_of_toJson hcurrent hh hv hparent hname hj
  case read =>
    exact fun members htag nullable notes path =>
      Classes.readValue_of_tag hcurrent hh hv htag nullable notes path

/-- A class that names two marked bases with different discriminators. -/
def Classes.amphibians : Classes :=
  ((({} : Classes).define
    { name := "Swimmer", body := .plain, notes := { discriminator := some "type" } }).define
    { name := "Walker", body := .plain, notes := { discriminator := some "kind" } }).define
    { name := "Newt", bases := ["Swimmer", "Walker"], body := .record false,
      fields := [{ name := "age", hint := .builtin .integer, default := .required }] }

/-- The variant comes after both bases. -/
theorem Classes.described_amphibians : Classes.amphibians.Described :=
  .define (.define (.define .empty rfl (by simp)) rfl (by simp)) rfl (by decide)

/-- Both marked bases have a hierarchy. -/
theorem Classes.hierarchiesDeclared_amphibians : Classes.amphibians.HierarchiesDeclared := by
  intro base hbase
  by_cases hswimmer : base = "Swimmer"
  · subst hswimmer
    exact ⟨_, rfl⟩
  by_cases hwalker : base = "Walker"
  · subst hwalker
    exact ⟨_, rfl⟩
  by_cases hnewt : base = "Newt"
  · subst hnewt
    cases hbase
  · simp [isPolymorphic, discriminator?, find?, amphibians, define, List.find?, Ne.symm hswimmer,
      Ne.symm hwalker, Ne.symm hnewt] at hbase

/-- A variant that finds the other one of its bases is read by the name that its base maps to it,
but its schema does not ask for this name and its records are written without it. -/
theorem BuildCall.tells_performAll_amphibians :
    ∃ returned b s, (performAll Classes.amphibians [.hint (.named "Walker")]).run {} =
        .ok returned b ∧
      b.registry.schema? "Newt" = some s ∧ ¬s.Tags "kind" "Newt" ∧
      ∀ age j, Body.toJson Classes.amphibians (.record "Newt" [("age", age)]) = .ok j →
        ∃ members, j = .object members ∧ Table.get? "kind" members = none := by
  let h : Hierarchy := ⟨"Walker", "kind", [("Newt", "Newt")]⟩
  have hh : Classes.amphibians.hierarchy "Walker" = .ok h := rfl
  obtain ⟨returned, b, hrun⟩ : ∃ returned b,
      (performAll Classes.amphibians [.hint (.named "Walker")]).run {} = .ok returned b :=
    ⟨_, _, rfl⟩
  obtain ⟨met, hmeets, _, htells⟩ := tells_performAll Classes.described_amphibians []
    Classes.hierarchiesDeclared_amphibians hrun
  obtain ⟨first, own, hfirst, hown, htells⟩ :=
    htells "Walker" h "Newt" "Newt" hh (List.mem_singleton_self _)
  obtain rfl : "Swimmer" = first := Option.some.inj hfirst
  obtain rfl : Hierarchy.mk "Swimmer" "type" [("Newt", "Newt")] = own := Except.ok.inj hown
  have hmet : .polymorphic "Walker" ∈ met := by
    cases hmeets with
    | plain hform _ => cases hform
    | known _ hseen _ => cases hseen
    | enter => exact List.mem_cons_self
  obtain ⟨s, hs, htags⟩ := htells.tagged hmet
  refine ⟨returned, b, s, hrun, hs, fun htagged => ?_, fun age j hj => ?_⟩
  · have hsame : "type" = "kind" := (htags.mp htagged).2
    simp at hsame
  · exact htells.written _ j hj

end HttpContract
