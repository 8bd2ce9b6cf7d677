import HttpContract.Proofs.Declarations
import HttpContract.Proofs.Failures
import HttpContract.Proofs.Tables

/-!
# Records and their constructors

The fields of a plain record's shape are the fields that its constructor takes, in order, and their
names for clients are distinct. A record that its constructor made is made again from the values of
these fields alone.
-/

namespace HttpContract

variable {J : Judgement}

namespace FieldDefault

variable {d : FieldDefault}

/-- A record is made without a value for a field just where the class is declared with a default. -/
theorem isSome_fresh? (d : FieldDefault) : d.fresh?.isSome = d.declared?.isSome := by
  cases d <;> rfl

/-- Where nothing is made for a field, records have the default that the class is declared with. -/
theorem fresh?_eq_declared? (h : d.isMade = false) : d.fresh? = d.declared? := by
  cases d with
  | required | value => rfl
  | made => cases h

end FieldDefault

namespace Classes

variable {C : Classes} {className : String} {shape : Shape}

/-- Where no name is found twice, names are distinct and new. -/
theorem nodup_of_repeatedName? {seen names : List String} (h : repeatedName? seen names = none) :
    names.Nodup ∧ ∀ name ∈ names, name ∉ seen := by
  induction names generalizing seen with
  | nil => exact ⟨List.nodup_nil, by simp⟩
  | cons name rest ih =>
    rw [repeatedName?] at h
    split at h
    · cases h
    · rename_i hnew
      obtain ⟨hrest, hapart⟩ := ih h
      refine ⟨List.nodup_cons.mpr ⟨fun hmem => ?_, hrest⟩, fun other hother => ?_⟩
      · exact hapart name hmem List.mem_cons_self
      · rcases List.mem_cons.mp hother with rfl | hother
        · simpa using hnew
        · exact fun hmem => hapart other hother (List.mem_cons_of_mem _ hmem)

/-- A shape has the name of its class, the fields that clients see, and distinct names for them. -/
theorem shape_eq_ok (h : C.shape className = .ok shape) :
    shape.className = className ∧ C.shapeFields className = .ok shape.fields ∧
      (shape.fields.map (·.wireName)).Nodup := by
  unfold Classes.shape at h
  split at h
  · cases h
  · obtain ⟨fields, hfields, h⟩ := bind_eq_ok_iff.mp h
    split at h
    · cases h
    · rename_i hnone
      cases h
      exact ⟨rfl, hfields, (nodup_of_repeatedName? hnone).1⟩

/-- A field is made with the names and the default that it is given, when its constraints fit its
type. -/
theorem makeField_eq_ok {name initName : String} {outerName : Option String} {type : TypeInfo}
    {default : Option Value} {f : Field}
    (h : makeField className name initName outerName type default = .ok f) :
    (f.name = name ∧ f.initName = initName ∧ f.default = default ∧ f.type = type) ∧
      checkConstraints (className ++ "." ++ name) f.type f.type.constraints = .ok () := by
  unfold makeField at h
  dsimp only at h
  split at h
  · cases h
  · obtain ⟨_, hcheck, h⟩ := bind_eq_ok_iff.mp h
    cases h
    exact ⟨⟨rfl, rfl, rfl, rfl⟩, mapError_eq_ok_iff.mp hcheck⟩

/-- A field of a model has the names and the default that the model has for it, and the type of its
hint with constraints that fit. -/
theorem modelField_eq_ok {spec : FieldSpec} {f : Field}
    (h : C.modelField className spec = .ok f) :
    (f.name = spec.name ∧ f.initName = modelInitName spec ∧ f.default = spec.default.declared?) ∧
      (∃ notes, C.resolve (C.modelNotes spec).1 notes = .ok f.type) ∧
      checkConstraints (className ++ "." ++ spec.name) f.type f.type.constraints = .ok () := by
  obtain ⟨bare, _, h⟩ := bind_eq_ok_iff.mp h
  obtain ⟨notes, _, h⟩ := bind_eq_ok_iff.mp h
  obtain ⟨type, htype, h⟩ := bind_eq_ok_iff.mp h
  obtain ⟨⟨hname, hinit, hdefault, rfl⟩, hcheck⟩ := makeField_eq_ok h
  exact ⟨⟨hname, hinit, hdefault⟩, ⟨notes, mapError_eq_ok_iff.mp htype⟩, hcheck⟩

/-- A field of a plain record has the name and the default that the record has for it, and the type
of its hint with constraints that fit. -/
theorem recordField_eq_ok {spec : FieldSpec} {f : Field}
    (h : C.recordField className spec = .ok f) :
    (f.name = spec.name ∧ f.initName = spec.name ∧ f.default = spec.default.declared?) ∧
      C.resolve (C.recordHint className spec) [] = .ok f.type ∧
      checkConstraints (className ++ "." ++ spec.name) f.type f.type.constraints = .ok () := by
  obtain ⟨type, htype, h⟩ := bind_eq_ok_iff.mp h
  obtain ⟨⟨hname, hinit, hdefault, rfl⟩, hcheck⟩ := makeField_eq_ok h
  exact ⟨⟨hname, hinit, hdefault⟩, mapError_eq_ok_iff.mp htype, hcheck⟩

/-- The fields of a model's shape are made of the fields of the model. -/
theorem mapM_modelField (hmodel : C.isModel className = true)
    (hshape : C.shape className = .ok shape) :
    (C.fieldsOf className).mapM (C.modelField className) = .ok shape.fields := by
  obtain ⟨_, hfields, _⟩ := shape_eq_ok hshape
  rwa [shapeFields, if_pos hmodel] at hfields

/-- A field of a model's shape is made of a field of the model. -/
theorem exists_modelField (hmodel : C.isModel className = true)
    (hshape : C.shape className = .ok shape) {f : Field} (hf : f ∈ shape.fields) :
    ∃ spec ∈ C.fieldsOf className, C.modelField className spec = .ok f :=
  exists_of_mem_mapM (mapM_modelField hmodel hshape) hf

/-- The fields of a plain shape are made of the fields that the constructor takes. -/
theorem mapM_recordField (hplain : C.isModel className = false)
    (hshape : C.shape className = .ok shape) :
    ((C.fieldsOf className).filter (·.settable)).mapM (C.recordField className) =
      .ok shape.fields := by
  obtain ⟨_, hfields, _⟩ := shape_eq_ok hshape
  rw [shapeFields, hplain] at hfields
  simp only [Bool.false_eq_true, if_false] at hfields
  split at hfields
  · cases hfields
  · exact hfields

/-- A field of a plain shape is made of a field that the constructor takes. -/
theorem exists_recordField (hplain : C.isModel className = false)
    (hshape : C.shape className = .ok shape) {f : Field} (hf : f ∈ shape.fields) :
    ∃ spec ∈ C.fieldsOf className, spec.settable = true ∧
      C.recordField className spec = .ok f := by
  obtain ⟨spec, hspec, hmade⟩ := exists_of_mem_mapM (mapM_recordField hplain hshape) hf
  obtain ⟨hspec, hsettable⟩ := List.mem_filter.mp hspec
  exact ⟨spec, hspec, hsettable, hmade⟩

/-- The constraints on the fields of a shape fit their types. -/
theorem checkConstraints_of_mem (h : C.shape className = .ok shape) {f : Field}
    (hf : f ∈ shape.fields) :
    ∃ owner, checkConstraints owner f.type f.type.constraints = .ok () := by
  cases hmodel : C.isModel className with
  | true =>
    obtain ⟨spec, _, hmade⟩ := exists_modelField hmodel h hf
    exact ⟨_, (modelField_eq_ok hmade).2.2⟩
  | false =>
    obtain ⟨spec, _, _, hmade⟩ := exists_recordField hmodel h hf
    exact ⟨_, (recordField_eq_ok hmade).2.2⟩

/-- The fields that clients see of a plain record are those that its constructor takes. -/
theorem names_shape (hplain : C.isModel className = false) (h : C.shape className = .ok shape) :
    shape.fields.map (·.name) =
        ((C.fieldsOf className).filter (·.settable)).map (·.name) ∧
      (∀ f ∈ shape.fields, f.initName = f.name) ∧
      ∀ spec ∈ (C.fieldsOf className).filter (·.settable),
        ∃ f ∈ shape.fields, f.name = spec.name ∧ f.default = spec.default.declared? := by
  have hmade := mapM_recordField hplain h
  refine ⟨map_eq_of_mapM (fun _ _ h => (recordField_eq_ok h).1.1) hmade, fun f hf => ?_,
    fun spec hspec => ?_⟩
  · obtain ⟨spec, _, hf⟩ := exists_of_mem_mapM hmade hf
    obtain ⟨⟨hname, hinit, _⟩, _⟩ := recordField_eq_ok hf
    rw [hname, hinit]
  · obtain ⟨f, hf, hfield⟩ := exists_mem_of_mapM hmade hspec
    obtain ⟨⟨hname, _, hdefault⟩, _⟩ := recordField_eq_ok hfield
    exact ⟨f, hf, hname, hdefault⟩

/-- A described field has its own default. -/
theorem defaultOf_eq (hC : C.WellFormed) {spec : FieldSpec} (hspec : spec ∈ C.fieldsOf className) :
    C.defaultOf className spec.name = spec.default := by
  rw [defaultOf, find?_of_nodup (hC.nodup_fieldsOf className) hspec]
  rfl

/-- The default of a field of a shape is the one that the class is declared with. -/
theorem default_eq_declared? (hC : C.WellFormed) (hshape : C.shape className = .ok shape)
    {f : Field} (hf : f ∈ shape.fields) :
    f.default = (C.defaultOf className f.name).declared? := by
  cases hmodel : C.isModel className with
  | true =>
    obtain ⟨spec, hspec, hmade⟩ := exists_modelField hmodel hshape hf
    obtain ⟨⟨hname, _, hdefault⟩, _⟩ := modelField_eq_ok hmade
    rw [hname, defaultOf_eq hC hspec, hdefault]
  | false =>
    obtain ⟨spec, hspec, _, hmade⟩ := exists_recordField hmodel hshape hf
    obtain ⟨⟨hname, _, hdefault⟩, _⟩ := recordField_eq_ok hmade
    rw [hname, defaultOf_eq hC hspec, hdefault]

/-- The value that a constructor gives to a field: the given one, or else what stands for none. -/
def attributeOf (given : List (String × Value)) (f : FieldSpec) : Option Value :=
  (if f.settable then Table.get? f.name given else none) <|> f.default.fresh?

/-- Arguments are missing when some can be given by place, or else when some can be given by name
only. -/
theorem missing_eq_nil_iff (missing : List FieldSpec) :
    missing = [] ↔ ((missing.filter (!·.byNameOnly)).map (·.name)).isEmpty = true ∧
      ((missing.filter (·.byNameOnly)).map (·.name)).isEmpty = true := by
  constructor
  · rintro rfl
    exact ⟨rfl, rfl⟩
  · rintro ⟨hplace, hname⟩
    cases missing with
    | nil => rfl
    | cons f rest => cases hf : f.byNameOnly <;> simp [hf] at hplace hname

/-- A plain record takes values for its fields only, and has all that it requires. -/
theorem recordAttributes_eq_ok_iff {given attributes : List (String × Value)} :
    C.recordAttributes className given = .ok attributes ↔
      (∀ p ∈ given, ∃ f ∈ C.fieldsOf className, f.settable = true ∧ f.name = p.1) ∧
      (∀ f ∈ C.fieldsOf className, f.settable = true → (attributeOf given f).isSome = true) ∧
      (C.fieldsOf className).filterMap (fun f => (attributeOf given f).map (f.name, ·)) =
        attributes := by
  let settable := (C.fieldsOf className).filter (·.settable)
  let missing := settable.filter fun f =>
    f.default.fresh?.isNone && (Table.get? f.name given).isNone
  have hknown : (given.find? fun p => settable.all (·.name ≠ p.1)) = none ↔
      ∀ p ∈ given, ∃ f ∈ C.fieldsOf className, f.settable = true ∧ f.name = p.1 := by
    simp [settable, List.find?_eq_none]
  have hcomplete : missing = [] ↔
      ∀ f ∈ C.fieldsOf className, f.settable = true → (attributeOf given f).isSome = true := by
    rw [List.filter_eq_nil_iff]
    constructor
    · intro h f hf hsettable
      have := h f (List.mem_filter.mpr ⟨hf, hsettable⟩)
      cases hgiven : Table.get? f.name given <;> cases hdefault : f.default.fresh? <;>
        simp_all [attributeOf]
    · intro h f hf
      obtain ⟨hf, hsettable⟩ := List.mem_filter.mp hf
      have := h f hf hsettable
      cases hgiven : Table.get? f.name given <;> cases hdefault : f.default.fresh? <;>
        simp_all [attributeOf]
  rw [← hknown, ← hcomplete, missing_eq_nil_iff]
  unfold recordAttributes
  dsimp only
  cases hfound : given.find? fun p => settable.all (·.name ≠ p.1) with
  | some p =>
    constructor
    · intro h
      cases h
    · rintro ⟨h, _⟩
      cases h
  | none =>
    cases hplace : ((missing.filter (!·.byNameOnly)).map (·.name)).isEmpty with
    | false => simp [bind, Except.bind, throw, throwThe, MonadExceptOf.throw]
    | true =>
      cases hname : ((missing.filter (·.byNameOnly)).map (·.name)).isEmpty with
      | false => simp [bind, Except.bind, throw, throwThe, MonadExceptOf.throw]
      | true => simp [attributeOf, pure, Except.pure]

/-- A plain record is made when its attributes are and its check of order passes. -/
theorem construct_eq_ok_iff (hplain : C.isModel className = false)
    (hshape : C.shape className = .ok shape) {given : List (String × Value)} {v : Value} :
    C.construct shape given = .ok v ↔ ∃ attributes,
      C.recordAttributes className given = .ok attributes ∧
        C.runOrderCheck className attributes = .ok () ∧ .record className attributes = v := by
  obtain ⟨hname, _, _⟩ := shape_eq_ok hshape
  unfold construct
  dsimp only
  rw [hname, hplain]
  simp only [Bool.false_eq_true, if_false]
  constructor
  · intro h
    obtain ⟨attributes, hattributes, h⟩ := bind_eq_ok_iff.mp h
    obtain ⟨⟨⟩, hcheck, h⟩ := bind_eq_ok_iff.mp h
    exact ⟨attributes, mapError_eq_ok_iff.mp hattributes, mapError_eq_ok_iff.mp hcheck,
      Except.ok.inj h⟩
  · rintro ⟨attributes, hattributes, hcheck, rfl⟩
    exact bind_eq_ok_iff.mpr ⟨attributes, mapError_eq_ok_iff.mpr hattributes,
      bind_eq_ok_iff.mpr ⟨(), mapError_eq_ok_iff.mpr hcheck, rfl⟩⟩

/-- A model is made when its attributes are and its check of order passes. -/
theorem construct_model_eq_ok_iff (hmodel : C.isModel className = true)
    (hshape : C.shape className = .ok shape) {given : List (String × Value)} {v : Value} :
    C.construct shape given = .ok v ↔ ∃ attributes,
      C.modelAttributes
          (C.buildNested (Value.dictDepthOfItems ((Table.ofBindings given).map (·.2)) + 1))
          className (Table.ofBindings given) = .ok attributes ∧
        C.runOrderCheck className attributes = .ok () ∧ .record className attributes = v := by
  obtain ⟨hname, _, _⟩ := shape_eq_ok hshape
  unfold construct
  dsimp only
  rw [hname, hmodel, if_pos rfl]
  constructor
  · intro h
    obtain ⟨attributes, hattributes, h⟩ := bind_eq_ok_iff.mp h
    have hattributes := mapError_eq_ok_iff.mp hattributes
    split at h
    · rename_i hcheck
      exact ⟨attributes, hattributes, hcheck, Except.ok.inj h⟩
    · cases h
    · cases h
  · rintro ⟨attributes, hattributes, hcheck, rfl⟩
    refine bind_eq_ok_iff.mpr ⟨attributes, mapError_eq_ok_iff.mpr hattributes, ?_⟩
    rw [hcheck]
    rfl

/-- A record that was made passes its check of order. -/
theorem runOrderCheck_of_construct (hshape : C.shape className = .ok shape)
    {given attributes : List (String × Value)}
    (h : C.construct shape given = .ok (.record className attributes)) :
    C.runOrderCheck className attributes = .ok () := by
  cases hmodel : C.isModel className with
  | false =>
    obtain ⟨_, _, hcheck, heq⟩ := (construct_eq_ok_iff hmodel hshape).mp h
    cases heq
    exact hcheck
  | true =>
    obtain ⟨_, _, hcheck, heq⟩ := (construct_model_eq_ok_iff hmodel hshape).mp h
    cases heq
    exact hcheck

/-- With distinct names each field leads to the attribute made for it. -/
theorem get?_filterMap_fields {fields : List FieldSpec} (hnames : (fields.map (·.name)).Nodup)
    (made : FieldSpec → Option Value) {f : FieldSpec} (hf : f ∈ fields) :
    Table.get? f.name (fields.filterMap fun f => (made f).map (f.name, ·)) = made f := by
  induction fields with
  | nil => cases hf
  | cons first rest ih =>
    rw [List.map_cons, List.nodup_cons] at hnames
    rcases List.mem_cons.mp hf with rfl | hf
    · cases hmade : made f with
      | some v => simp [hmade, Table.get?]
      | none =>
        rw [List.filterMap_cons_none (by rw [hmade]; rfl), Table.get?_eq_none_iff]
        intro hkey
        obtain ⟨p, hp, hkey⟩ := List.mem_map.mp hkey
        obtain ⟨g, hg, hp⟩ := List.mem_filterMap.mp hp
        obtain ⟨v, _, rfl⟩ := Option.map_eq_some_iff.mp hp
        exact hnames.1 (List.mem_map.mpr ⟨g, hg, hkey⟩)
    · have hne : first.name ≠ f.name := fun heq =>
        hnames.1 (heq ▸ List.mem_map_of_mem hf)
      cases hmade : made first with
      | some v =>
        rw [List.filterMap_cons_some (by rw [hmade]; rfl), Table.get?, if_neg hne]
        exact ih hnames.2 hf
      | none =>
        rw [List.filterMap_cons_none (by rw [hmade]; rfl)]
        exact ih hnames.2 hf

/-- A record that its constructor made is made again from the values of the fields that clients
see. -/
theorem construct_again (hC : C.WellFormed) (hplain : C.isModel className = false)
    (hshape : C.shape className = .ok shape) {given attributes : List (String × Value)}
    (hmade : C.construct shape given = .ok (.record className attributes)) {value : Field → Value}
    (hvalue : ∀ f ∈ shape.fields, Table.get? f.name attributes = some (value f)) :
    C.construct shape (shape.fields.map fun f => (f.initName, value f)) =
      .ok (.record className attributes) := by
  obtain ⟨hshapeNames, hinit, _⟩ := names_shape hplain hshape
  obtain ⟨_, hattributes, hcheck, heq⟩ := (construct_eq_ok_iff hplain hshape).mp hmade
  cases heq
  obtain ⟨_, hcomplete, hkept⟩ := recordAttributes_eq_ok_iff.mp hattributes
  let again := shape.fields.map fun f => (f.initName, value f)
  have hget : ∀ spec ∈ C.fieldsOf className, spec.settable = true →
      Table.get? spec.name again = attributeOf given spec := by
    intro spec hspec hsettable
    have hattribute : Table.get? spec.name attributes = attributeOf given spec := by
      rw [← hkept]
      exact get?_filterMap_fields (hC.nodup_fieldsOf className) _ hspec
    cases hfound : Table.get? spec.name again with
    | some x =>
      obtain ⟨f, hf, hpair⟩ := List.mem_map.mp (Table.mem_of_get? hfound)
      obtain ⟨hname, rfl⟩ := Prod.mk.inj hpair
      rw [← hattribute, ← hname, hinit f hf, hvalue f hf]
    | none =>
      rw [Table.get?_eq_none_iff] at hfound
      have hmem : spec.name ∈ shape.fields.map (·.name) := by
        rw [hshapeNames]
        exact List.mem_map_of_mem (List.mem_filter.mpr ⟨hspec, hsettable⟩)
      obtain ⟨f, hf, hname⟩ := List.mem_map.mp hmem
      refine absurd ?_ hfound
      exact List.mem_map.mpr ⟨_, List.mem_map_of_mem hf, (hinit f hf).trans hname⟩
  have hsame : ∀ spec ∈ C.fieldsOf className, attributeOf again spec = attributeOf given spec := by
    intro spec hspec
    by_cases hsettable : spec.settable = true
    · obtain ⟨x, hx⟩ := Option.isSome_iff_exists.mp (hcomplete spec hspec hsettable)
      rw [attributeOf, if_pos hsettable, hget spec hspec hsettable, hx]
      rfl
    · rw [attributeOf, attributeOf, if_neg hsettable, if_neg hsettable]
  refine (construct_eq_ok_iff hplain hshape).mpr ⟨attributes, ?_, hcheck, rfl⟩
  refine recordAttributes_eq_ok_iff.mpr ⟨?_, ?_, ?_⟩
  · intro p hp
    obtain ⟨f, hf, rfl⟩ := List.mem_map.mp hp
    have hmem : f.name ∈ ((C.fieldsOf className).filter (·.settable)).map (·.name) := by
      rw [← hshapeNames]
      exact List.mem_map_of_mem hf
    obtain ⟨spec, hspec, hname⟩ := List.mem_map.mp hmem
    obtain ⟨hspec, hsettable⟩ := List.mem_filter.mp hspec
    exact ⟨spec, hspec, hsettable, hname.trans (hinit f hf).symm⟩
  · intro spec hspec hsettable
    rw [hsame spec hspec]
    exact hcomplete spec hspec hsettable
  · rw [← hkept]
    exact List.filterMap_congr fun spec hspec => by rw [hsame spec hspec]

end Classes

/-- Values for the constructor of a shape: for its fields only, and for each that has no default. -/
structure Shape.Covers (shape : Shape) (given : List (String × Value)) : Prop where
  known : ∀ p ∈ given, ∃ f ∈ shape.fields, f.initName = p.1
  complete : ∀ f ∈ shape.fields, f.default.isSome = true ∨ f.initName ∈ Table.keys given

namespace Classes

variable {C : Classes} {className : String} {shape : Shape}

/-- A plain record takes values that cover its shape. -/
theorem exists_recordAttributes (hplain : C.isModel className = false)
    (hshape : C.shape className = .ok shape) {given : List (String × Value)}
    (hgiven : shape.Covers given) :
    ∃ attributes, C.recordAttributes className given = .ok attributes := by
  obtain ⟨hnames, hinit, hdefaults⟩ := names_shape hplain hshape
  refine ⟨_, recordAttributes_eq_ok_iff.mpr ⟨fun p hp => ?_, fun spec hspec hsettable => ?_, rfl⟩⟩
  · obtain ⟨f, hf, hname⟩ := hgiven.known p hp
    have hmem : f.name ∈ ((C.fieldsOf className).filter (·.settable)).map (·.name) := by
      rw [← hnames]
      exact List.mem_map_of_mem hf
    obtain ⟨spec, hspec, hsame⟩ := List.mem_map.mp hmem
    obtain ⟨hspec, hsettable⟩ := List.mem_filter.mp hspec
    exact ⟨spec, hspec, hsettable, by rw [hsame, ← hinit f hf, hname]⟩
  · obtain ⟨f, hf, hname, hdefault⟩ :=
      hdefaults spec (List.mem_filter.mpr ⟨hspec, hsettable⟩)
    have hcomplete := hgiven.complete f hf
    rw [hinit f hf, hname, hdefault] at hcomplete
    unfold attributeOf
    rw [if_pos hsettable]
    rcases hcomplete with hvalue | hkey
    · cases Table.get? spec.name given with
      | some v => rfl
      | none => exact (FieldDefault.isSome_fresh? _).trans hvalue
    · cases hfound : Table.get? spec.name given with
      | some v => rfl
      | none => exact absurd hkey ((Table.get?_eq_none_iff _ _).mp hfound)

/-- A class without a check of order runs none. -/
theorem runOrderCheck_of_none (hcheck : C.orderCheck? className = none)
    (attributes : List (String × Value)) : C.runOrderCheck className attributes = .ok () := by
  rw [runOrderCheck, hcheck]

/-- A constructor that fails does so with a fault, or with a refusal of a model. -/
theorem construct_eq_error {given : List (String × Value)} {e : Failure}
    (h : C.construct shape given = .error e) :
    (∃ fault, e = .fault fault) ∨ ∃ field why, e = .refused field (.byModel why) := by
  unfold construct at h
  dsimp only at h
  split at h
  · rcases bind_eq_error_iff.mp h with h | ⟨attributes, _, h⟩
    · obtain ⟨cause, _, rfl⟩ := mapError_eq_error_iff.mp h
      exact Or.inr ⟨_, _, rfl⟩
    · split at h
      · cases h
      · cases h
        exact Or.inr ⟨_, _, rfl⟩
      · cases h
        exact Or.inl ⟨_, rfl⟩
  · rcases bind_eq_error_iff.mp h with h | ⟨attributes, _, h⟩
    · obtain ⟨fault, _, rfl⟩ := mapError_eq_error_iff.mp h
      exact Or.inl ⟨fault, rfl⟩
    · rcases bind_eq_error_iff.mp h with h | ⟨_, _, h⟩
      · obtain ⟨fault, _, rfl⟩ := mapError_eq_error_iff.mp h
        exact Or.inl ⟨fault, rfl⟩
      · cases h

/-- What a constructor makes is an instance of its class. -/
theorem exists_record_of_construct (hshape : C.shape className = .ok shape)
    {given : List (String × Value)} {v : Value} (h : C.construct shape given = .ok v) :
    ∃ attributes, v = .record className attributes := by
  obtain ⟨hname, _, _⟩ := shape_eq_ok hshape
  unfold construct at h
  dsimp only at h
  rw [hname] at h
  split at h
  · obtain ⟨attributes, _, h⟩ := bind_eq_ok_iff.mp h
    split at h
    · exact ⟨attributes, (Except.ok.inj h).symm⟩
    · cases h
    · cases h
  · obtain ⟨attributes, _, h⟩ := bind_eq_ok_iff.mp h
    obtain ⟨_, _, h⟩ := bind_eq_ok_iff.mp h
    exact ⟨attributes, (Except.ok.inj h).symm⟩

/-- Whether the constructor of a class raises nothing but a model's own refusals, on values that
cover the shape of the class. -/
def TakesValues (C : Classes) (className : String) : Prop :=
  ∀ shape, C.shape className = .ok shape → ∀ given, shape.Covers given →
    ∀ fault, C.construct shape given ≠ .error (.fault fault)

/-- A constructor that takes values does not crash on them. -/
theorem not_crashes_construct (hshape : C.shape className = .ok shape)
    (htakes : C.TakesValues className) {given : List (String × Value)}
    (hgiven : shape.Covers given) : ¬J.Crashes (C.construct shape given) := by
  rintro ⟨e, he, hclient⟩
  rcases construct_eq_error he with ⟨fault, rfl⟩ | ⟨field, why, rfl⟩
  · exact htakes shape hshape given hgiven fault he
  · simp [Refusal.isWritable] at hclient

/-- A plain record takes values when its check of order passes on whatever attributes they make. -/
theorem takesValues_of_plain (hplain : C.isModel className = false)
    (hpasses : ∀ shape given attributes, C.shape className = .ok shape → shape.Covers given →
      C.recordAttributes className given = .ok attributes →
      C.runOrderCheck className attributes = .ok ()) : C.TakesValues className := by
  intro shape hshape given hgiven fault
  obtain ⟨attributes, hattributes⟩ := exists_recordAttributes hplain hshape hgiven
  have hcheck := hpasses shape given attributes hshape hgiven hattributes
  rw [(construct_eq_ok_iff hplain hshape).mpr ⟨attributes, hattributes, hcheck, rfl⟩]
  exact fun h => by cases h

/-- A model takes values when its check of order fails on the attributes that they make only with
the message of the check. -/
theorem takesValues_of_model (hmodel : C.isModel className = true)
    (hfails : ∀ build given attributes fault,
      C.modelAttributes build className given = .ok attributes →
        C.runOrderCheck className attributes = .error fault →
          ∃ message, fault = .checkFailed message) : C.TakesValues className := by
  intro shape hshape given _ fault h
  obtain ⟨hname, _, _⟩ := shape_eq_ok hshape
  unfold construct at h
  dsimp only at h
  rw [hname, hmodel, if_pos rfl] at h
  rcases bind_eq_error_iff.mp h with h | ⟨attributes, hattributes, h⟩
  · obtain ⟨_, _, h⟩ := mapError_eq_error_iff.mp h
    cases h
  · split at h
    · cases h
    · cases h
    · rename_i cause hnot hcause
      obtain ⟨message, rfl⟩ := hfails _ _ _ _ (mapError_eq_ok_iff.mp hattributes) hcause
      exact hnot message rfl

/-- A class without a check of order takes values. -/
theorem takesValues_of_none (hcheck : C.orderCheck? className = none) :
    C.TakesValues className := by
  cases hmodel : C.isModel className with
  | false => exact takesValues_of_plain hmodel fun _ _ _ _ _ _ => runOrderCheck_of_none hcheck _
  | true =>
    refine takesValues_of_model hmodel fun _ _ attributes fault _ hfails => ?_
    rw [runOrderCheck_of_none hcheck] at hfails
    cases hfails

end Classes

end HttpContract
