import HttpContract.Proofs.Gathering
import HttpContract.Proofs.Resolving

/-!
# Attributes of records

What a record has after its constructor took the values for its fields: under each field that
clients see the value that was given to it, or else its default, which a factory makes anew. A plain
record has nothing besides but the defaults of fields that its constructor takes no value for. A
model converts the values that it takes, but keeps null wherever the type of the field allows it.
-/

namespace HttpContract

namespace Classes

variable {C : Classes} {className : String} {shape : Shape}
  {given attributes : List (String × Value)}

/-- A plain record has under each field that clients see the value given to it, or else the
default. -/
theorem get?_recordAttributes (hC : C.WellFormed) (hplain : C.isModel className = false)
    (hshape : C.shape className = .ok shape)
    (h : C.recordAttributes className given = .ok attributes) {f : Field} (hf : f ∈ shape.fields) :
    ∃ v, (Table.get? f.initName given).or (C.defaultOf className f.name).fresh? = some v ∧
      Table.get? f.name attributes = some v := by
  obtain ⟨spec, hspec, hsettable, hmade⟩ := exists_recordField hplain hshape hf
  obtain ⟨⟨hname, hinit, _⟩, _⟩ := recordField_eq_ok hmade
  obtain ⟨_, hcomplete, hkept⟩ := recordAttributes_eq_ok_iff.mp h
  obtain ⟨v, hv⟩ := Option.isSome_iff_exists.mp (hcomplete spec hspec hsettable)
  have hget : Table.get? spec.name attributes = attributeOf given spec := by
    rw [← hkept]
    exact get?_filterMap_fields (hC.nodup_fieldsOf className) _ hspec
  refine ⟨v, ?_, by rw [hname, hget, hv]⟩
  rw [attributeOf, if_pos hsettable, ← hinit, Option.orElse_eq_orElse, Option.orElse_eq_or] at hv
  rwa [hname, defaultOf_eq hC hspec]

/-- What stands below all notes has none around it. -/
theorem splitNotes_ne_annotated (hint : Hint) (base : Hint) (notes : List Note) :
    (splitNotes hint).1 ≠ .annotated base notes := by
  cases hint with
  | annotated inner more => exact splitNotes_ne_annotated inner base notes
  | _ => simp [splitNotes]

/-- Only a union or notes are normalized to a union or notes. -/
theorem isLayered_of_normal {known : String → Bool} {hint : Hint}
    (h : (hint.normal known).isLayered = true) : hint.isLayered = true := by
  cases hint with
  | union | annotated => rfl
  | _ => simp [Hint.normal, Hint.isLayered] at h

/-- The hint of a model's field that allows null is a union below its notes. -/
theorem exists_union_of_modelField {spec : FieldSpec} {f : Field}
    (h : C.modelField className spec = .ok f) (hnullable : f.nullable = true) :
    ∃ bars members, (splitNotes (spec.hint.normal C.isKnown)).1 = .union bars members := by
  obtain ⟨_, ⟨notes, htype⟩, _⟩ := modelField_eq_ok h
  have hlayered : (C.modelNotes spec).1.isLayered = true := by
    apply isLayered_of_normal
    by_contra hplain
    have hkept := (resolveWithin_eq_ok htype).2 (by simpa using hplain)
    rw [show f.type.nullable = true from hnullable] at hkept
    cases hkept
  -- A reference in the place of a name is no union, so that normalizing has left the union alone.
  have hbase : (splitNotes (Hint.asReference C.isKnown (spec.hint.normal C.isKnown))).1.isLayered =
      true := by
    unfold modelNotes at hlayered
    dsimp only at hlayered
    split at hlayered
    · cases hlayered
    · exact hlayered
  cases hnormal : spec.hint.normal C.isKnown with
  | named name =>
    rw [hnormal, Hint.asReference] at hbase
    split at hbase <;> cases hbase
  | union bars members => exact ⟨bars, members, rfl⟩
  | annotated inner more =>
    rw [hnormal] at hbase
    cases hinner : (splitNotes (.annotated inner more)).1 with
    | union bars members => exact ⟨bars, members, rfl⟩
    | annotated deeper others => exact absurd hinner (splitNotes_ne_annotated _ _ _)
    | _ =>
      rw [Hint.asReference, hinner] at hbase
      · cases hbase
      · simp
  | _ =>
    rw [hnormal] at hbase
    cases hbase

/-- A model takes null for a field whose hint is a union below its notes, and keeps it. -/
theorem value_null {build : String → List (Value × Value) → Except String Value}
    (rules : List FieldRule) {hint : Hint} {bars : Bool} {members : List Hint}
    (h : (splitNotes hint).1 = .union bars members) :
    ModelCheck.value C build rules hint .null = .ok .null := by
  cases hint with
  | annotated inner more =>
    rw [ModelCheck.value]
    exact value_null _ h
  | union bars members => rw [ModelCheck.value]
  | _ => simp [splitNotes] at h

/-- No check of a floor refuses null. -/
theorem runFloorChecks_null (checks : List FloorCheck) : runFloorChecks .null checks = .ok () := by
  induction checks with
  | nil => rfl
  | cons check rest ih => exact ih

/-- A model's field has the attribute that is made for it under its own name. -/
theorem name_modelAttribute {build : String → List (Value × Value) → Except String Value}
    {checks : List FloorCheck} {spec : FieldSpec} {p : String × Value}
    (h : C.modelAttribute build checks given spec = .ok p) : p.1 = spec.name := by
  unfold modelAttribute at h
  dsimp only at h
  split at h
  · obtain ⟨v, _, h⟩ := bind_eq_ok_iff.mp h
    obtain ⟨_, _, h⟩ := bind_eq_ok_iff.mp h
    cases h
    rfl
  · split at h
    · cases h
      rfl
    · cases h

/-- The attributes of a model are made for its fields one by one, and where it refuses other names
nothing is given under one. -/
theorem modelAttributes_eq_ok_iff {build : String → List (Value × Value) → Except String Value} :
    C.modelAttributes build className given = .ok attributes ↔
      (C.fieldsOf className).mapM (C.modelAttribute build (C.floorChecks className) given) =
          .ok attributes ∧
        (C.forbidsExtra className = true →
          ∀ p ∈ given, ∃ spec ∈ C.fieldsOf className, modelInitName spec = p.1) := by
  have hknown : (given.find? fun p => (C.fieldsOf className).all fun f => modelInitName f ≠ p.1) =
      none ↔ ∀ p ∈ given, ∃ spec ∈ C.fieldsOf className, modelInitName spec = p.1 := by
    simp [List.find?_eq_none]
  rw [← hknown, modelAttributes, bind_eq_ok_iff]
  constructor
  · rintro ⟨made, hmade, h⟩
    split at h
    · rename_i hforbids
      split at h
      · cases h
      · rename_i hnone
        cases h
        exact ⟨hmade, fun _ => hnone⟩
    · rename_i hforbids
      cases h
      exact ⟨hmade, fun h => absurd h hforbids⟩
  · rintro ⟨hmade, hgiven⟩
    refine ⟨attributes, hmade, ?_⟩
    split
    · rename_i hforbids
      rw [hgiven hforbids]
      rfl
    · rfl

/-- What a model has under its fields is what the fields are given one by one. -/
theorem get?_modelAttributes (hC : C.WellFormed)
    {build : String → List (Value × Value) → Except String Value}
    (h : C.modelAttributes build className given = .ok attributes) {spec : FieldSpec}
    (hspec : spec ∈ C.fieldsOf className) : ∃ v,
      C.modelAttribute build (C.floorChecks className) given spec = .ok (spec.name, v) ∧
        Table.get? spec.name attributes = some v := by
  obtain ⟨hmade, _⟩ := modelAttributes_eq_ok_iff.mp h
  have hdistinct : Table.Distinct attributes := by
    rw [Table.Distinct, Table.keys, map_eq_of_mapM (fun _ _ => name_modelAttribute) hmade]
    exact hC.nodup_fieldsOf className
  obtain ⟨⟨name, v⟩, hmem, hattribute⟩ := exists_mem_of_mapM hmade hspec
  obtain rfl : name = spec.name := name_modelAttribute hattribute
  exact ⟨v, hattribute, Table.get?_of_mem hdistinct hmem⟩

/-- A model has under a field that was given nothing the default, and under one that was given null
where null is allowed just that. -/
theorem get?_modelAttributes_absent (hC : C.WellFormed) (hmodel : C.isModel className = true)
    (hshape : C.shape className = .ok shape)
    {build : String → List (Value × Value) → Except String Value}
    (h : C.modelAttributes build className given = .ok attributes) {f : Field}
    (hf : f ∈ shape.fields) :
    (Table.get? f.initName given = none →
        Table.get? f.name attributes = (C.defaultOf className f.name).fresh?) ∧
      (f.nullable = true → Table.get? f.initName given = some .null →
        Table.get? f.name attributes = some .null) := by
  obtain ⟨spec, hspec, hfield⟩ := exists_modelField hmodel hshape hf
  obtain ⟨⟨hname, hinit, _⟩, _⟩ := modelField_eq_ok hfield
  obtain ⟨v, hattribute, hget⟩ := get?_modelAttributes hC h hspec
  rw [hname, hinit, hget, defaultOf_eq hC hspec]
  unfold modelAttribute at hattribute
  dsimp only at hattribute
  constructor
  · intro hnone
    rw [hnone] at hattribute
    dsimp only at hattribute
    split at hattribute
    · rename_i value hvalue
      cases hattribute
      exact hvalue.symm
    · cases hattribute
  · intro hnullable hnull
    obtain ⟨bars, members, hunion⟩ := exists_union_of_modelField hfield hnullable
    rw [hnull] at hattribute
    dsimp only at hattribute
    rw [value_null _ hunion] at hattribute
    obtain ⟨w, hw, hattribute⟩ := bind_eq_ok_iff.mp hattribute
    cases hw
    rw [runFloorChecks_null] at hattribute
    cases hattribute
    rfl

/-- What a constructor makes has under a field that was given nothing the default, and under one
that was given null where null is allowed just that. -/
theorem exists_attributes_of_construct (hC : C.WellFormed) (hshape : C.shape className = .ok shape)
    (hgiven : Table.Distinct given) {v : Value} (h : C.construct shape given = .ok v) :
    ∃ attributes, v = .record className attributes ∧ ∀ f ∈ shape.fields,
      (Table.get? f.initName given = none →
          Table.get? f.name attributes = (C.defaultOf className f.name).fresh?) ∧
        (f.nullable = true → Table.get? f.initName given = some .null →
          Table.get? f.name attributes = some .null) := by
  cases hmodel : C.isModel className with
  | false =>
    obtain ⟨attributes, hattributes, _, rfl⟩ := (construct_eq_ok_iff hmodel hshape).mp h
    refine ⟨attributes, rfl, fun f hf => ?_⟩
    obtain ⟨v, hv, hget⟩ := get?_recordAttributes hC hmodel hshape hattributes hf
    rw [hget]
    constructor
    · intro hnone
      rw [hnone, Option.none_or] at hv
      exact hv.symm
    · intro _ hnull
      rw [hnull, Option.some_or] at hv
      exact hv.symm
  | true =>
    obtain ⟨attributes, hattributes, _, rfl⟩ := (construct_model_eq_ok_iff hmodel hshape).mp h
    rw [Table.ofBindings_of_distinct hgiven] at hattributes
    exact ⟨attributes, rfl, fun f hf =>
      get?_modelAttributes_absent hC hmodel hshape hattributes hf⟩

end Classes

end HttpContract
