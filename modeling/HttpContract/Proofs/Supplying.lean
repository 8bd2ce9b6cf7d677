import HttpContract.Proofs.Attributes
import HttpContract.Proofs.Nesting

/-!
# One more value for a constructor

A constructor that took values takes one more, for a field that was left out, exactly when it takes
this value and the check of order passes on what comes of it. What it makes differs from what it
made before under the name of this field only.
-/

namespace HttpContract

namespace Classes

variable {C : Classes} {className : String} {shape : Shape}
  {given more attributes others : List (String × Value)} {f : Field} {v : Value}

/-- What the constructor of a class makes of a value for one of its fields: a plain record takes it
as it is, a model checks it. -/
def takenAs (C : Classes) (className : String) (f : Field) (v : Value) :
    Except (Option String × String) Value :=
  match C.isModel className, (C.fieldsOf className).find? (·.name = f.name) with
  | true, some spec =>
    (C.modelAttribute (C.buildNested v.dictDepth) (C.floorChecks className) [(f.initName, v)]
      spec).map (·.2)
  | _, _ => .ok v

/-- A plain record takes values as they are. -/
@[simp] theorem takenAs_of_plain (hplain : C.isModel className = false) (f : Field) (v : Value) :
    C.takenAs className f v = .ok v := by
  rw [takenAs, hplain]

/-- A model makes of a value for a field the attribute of that field. -/
theorem takenAs_of_model (hC : C.WellFormed) (hmodel : C.isModel className = true)
    {spec : FieldSpec}
    (hspec : spec ∈ C.fieldsOf className) (hname : f.name = spec.name) {w : Value} :
    C.takenAs className f v = .ok w ↔
      C.modelAttribute (C.buildNested v.dictDepth) (C.floorChecks className)
        [(f.initName, v)] spec =
        .ok (spec.name, w) := by
  have hfound := find?_of_nodup (hC.nodup_fieldsOf className) hspec
  rw [← hname] at hfound
  rw [takenAs, hmodel, hfound]
  dsimp only
  rw [map_eq_ok_iff]
  constructor
  · rintro ⟨⟨name, w⟩, hmade, rfl⟩
    obtain rfl : name = spec.name := name_modelAttribute hmade
    exact hmade
  · exact fun hmade => ⟨_, hmade, rfl⟩

section Instead

variable {fields : List FieldSpec} {spec : FieldSpec}

/-- A field of several with distinct names stands between others of other names. -/
theorem exists_apart (hnames : (fields.map (·.name)).Nodup) (hspec : spec ∈ fields) :
    ∃ front behind, fields = front ++ spec :: behind ∧ spec.name ∉ front.map (·.name) ∧
      ∀ g ∈ front ++ behind, g ∈ fields ∧ g ≠ spec := by
  obtain ⟨front, behind, rfl⟩ := List.append_of_mem hspec
  rw [List.map_append, List.map_cons, List.nodup_middle, List.nodup_cons,
    ← List.map_append] at hnames
  refine ⟨front, behind, rfl, fun hmem => hnames.1 ?_, fun g hg => ⟨?_, ?_⟩⟩
  · rw [List.map_append]
    exact List.mem_append_left _ hmem
  · rcases List.mem_append.mp hg with hg | hg
    · exact List.mem_append_left _ hg
    · exact List.mem_append_right _ (List.mem_cons_of_mem _ hg)
  · rintro rfl
    exact hnames.1 (List.mem_map_of_mem hg)

/-- When the attribute of one field is made otherwise, just this attribute is set to another value.
-/
theorem filterMap_instead (hnames : (fields.map (·.name)).Nodup) (hspec : spec ∈ fields)
    {made other : FieldSpec → Option Value} {old new : Value} (hmade : made spec = some old)
    (hother : other spec = some new) (hothers : ∀ g ∈ fields, g ≠ spec → other g = made g) :
    (fields.filterMap fun g => (other g).map (g.name, ·)) =
      Table.set spec.name new (fields.filterMap fun g => (made g).map (g.name, ·)) := by
  obtain ⟨front, behind, rfl, hfront, hapart⟩ := exists_apart hnames hspec
  have hsame : ∀ g ∈ front ++ behind, (other g).map (g.name, ·) = (made g).map (g.name, ·) :=
    fun g hg => by rw [hothers g (hapart g hg).1 (hapart g hg).2]
  have hkey : spec.name ∉ Table.keys (front.filterMap fun g => (made g).map (g.name, ·)) := by
    intro hmem
    obtain ⟨p, hp, hname⟩ := List.mem_map.mp hmem
    obtain ⟨g, hg, hp⟩ := List.mem_filterMap.mp hp
    obtain ⟨w, _, rfl⟩ := Option.map_eq_some_iff.mp hp
    exact hfront (List.mem_map.mpr ⟨g, hg, hname⟩)
  rw [List.filterMap_append, List.filterMap_append, List.filterMap_cons_some (by rw [hother]; rfl),
    List.filterMap_cons_some (by rw [hmade]; rfl), Table.set_append_cons hkey,
    List.filterMap_congr fun g hg => hsame g (List.mem_append_left _ hg),
    List.filterMap_congr fun g hg => hsame g (List.mem_append_right _ hg)]

/-- When the attribute of one field is made otherwise, all are made exactly when it is, and just
this attribute is set to another value. -/
theorem mapM_instead {ε : Type} (hnames : (fields.map (·.name)).Nodup) (hspec : spec ∈ fields)
    {made other : FieldSpec → Except ε (String × Value)}
    (hname : ∀ g p, made g = .ok p → p.1 = g.name)
    (hown : ∀ p, other spec = .ok p → p.1 = spec.name)
    (hothers : ∀ g ∈ fields, g ≠ spec → other g = made g)
    (h : fields.mapM made = .ok attributes) :
    fields.mapM other = .ok others ↔
      ∃ w, other spec = .ok (spec.name, w) ∧ Table.set spec.name w attributes = others := by
  obtain ⟨front, behind, rfl, hfront, hapart⟩ := exists_apart hnames hspec
  obtain ⟨first, ⟨key, old⟩, last, hfirst, hold, hlast, rfl⟩ := mapM_append_cons_eq_ok_iff.mp h
  obtain rfl : key = spec.name := hname spec _ hold
  have hsame : ∀ g ∈ front ++ behind, other g = made g := fun g hg =>
    hothers g (hapart g hg).1 (hapart g hg).2
  have hset (w : Value) : Table.set spec.name w (first ++ (spec.name, old) :: last) =
      first ++ (spec.name, w) :: last := by
    refine Table.set_append_cons ?_ old w
    rw [Table.keys, map_eq_of_mapM hname hfirst]
    exact hfront
  rw [← mapM_congr fun g hg => hsame g (List.mem_append_left _ hg)] at hfirst
  rw [← mapM_congr fun g hg => hsame g (List.mem_append_right _ hg)] at hlast
  rw [mapM_append_cons_eq_ok_iff]
  constructor
  · rintro ⟨first', ⟨key, w⟩, last', hfirst', hother, hlast', rfl⟩
    obtain rfl : key = spec.name := hown _ hother
    obtain rfl := Except.ok.inj (hfirst.symm.trans hfirst')
    obtain rfl := Except.ok.inj (hlast.symm.trans hlast')
    exact ⟨w, hother, hset w⟩
  · rintro ⟨w, hother, rfl⟩
    exact ⟨first, _, last, hfirst, hother, hlast, (hset w).symm⟩

end Instead

/-- A plain record takes one more value as it is. -/
theorem recordAttributes_adds (hC : C.WellFormed) (hplain : C.isModel className = false)
    (hshape : C.shape className = .ok shape) (hf : f ∈ shape.fields)
    (hadds : Table.Adds f.initName v given more)
    (h : C.recordAttributes className given = .ok attributes) :
    C.recordAttributes className more = .ok (Table.set f.name v attributes) := by
  obtain ⟨spec, hspec, hsettable, hfield⟩ := exists_recordField hplain hshape hf
  obtain ⟨⟨hname, hinit, _⟩, _⟩ := recordField_eq_ok hfield
  rw [hinit] at hadds
  obtain ⟨hknown, hcomplete, hkept⟩ := recordAttributes_eq_ok_iff.mp h
  have hown : attributeOf more spec = some v := by
    rw [attributeOf, if_pos hsettable, hadds, if_pos rfl]
    rfl
  have hothers :
      ∀ g ∈ C.fieldsOf className, g ≠ spec → attributeOf more g = attributeOf given g := by
    intro g hg hne
    have hnames : g.name ≠ spec.name := fun heq =>
      hne (List.inj_on_of_nodup_map (hC.nodup_fieldsOf className) hg hspec heq)
    rw [attributeOf, attributeOf, hadds, if_neg hnames]
  refine recordAttributes_eq_ok_iff.mpr ⟨?_, fun g hg hset => ?_, ?_⟩
  · exact hadds.forall_keys
      (fun key => ∃ g ∈ C.fieldsOf className, g.settable = true ∧ g.name = key)
      hknown ⟨spec, hspec, hsettable, rfl⟩
  · by_cases heq : g = spec
    · rw [heq, hown]
      rfl
    · rw [hothers g hg heq]
      exact hcomplete g hg hset
  · obtain ⟨old, hold⟩ := Option.isSome_iff_exists.mp (hcomplete spec hspec hsettable)
    rw [hname, ← hkept]
    exact filterMap_instead (hC.nodup_fieldsOf className) hspec hold hown hothers

/-- Other fields of a model take their values under other names than a field that shares its name
for the constructor with none. -/
theorem modelInitName_ne (hC : C.WellFormed) (hmodel : C.isModel className = true)
    (hshape : C.shape className = .ok shape)
    (honly : ∀ g ∈ shape.fields, g.initName = f.initName → g = f) {spec other : FieldSpec}
    (hspec : spec ∈ C.fieldsOf className) (hname : f.name = spec.name)
    (hother : other ∈ C.fieldsOf className) (hne : other ≠ spec) :
    modelInitName other ≠ f.initName := by
  intro heq
  obtain ⟨g, hg, hmade⟩ := exists_mem_of_mapM (mapM_modelField hmodel hshape) hother
  obtain ⟨⟨hgname, hinit, _⟩, _⟩ := modelField_eq_ok hmade
  have hsame : g = f := honly g hg (hinit.trans heq)
  refine hne (List.inj_on_of_nodup_map (hC.nodup_fieldsOf className) hother hspec ?_)
  rw [← hgname, hsame, hname]

/-- A model takes one more value, under a name that is that of no other field, when it takes the
value by itself. -/
theorem modelAttributes_adds_iff (hC : C.WellFormed) (hmodel : C.isModel className = true)
    (hshape : C.shape className = .ok shape) (hf : f ∈ shape.fields)
    (honly : ∀ g ∈ shape.fields, g.initName = f.initName → g = f)
    (hadds : Table.Adds f.initName v given more) {n m : Nat}
    (hn : Value.dictDepthOfItems (given.map (·.2)) ≤ n)
    (hm : Value.dictDepthOfItems (more.map (·.2)) ≤ m)
    (h : C.modelAttributes (C.buildNested n) className given = .ok attributes) :
    C.modelAttributes (C.buildNested m) className more = .ok others ↔
      ∃ w, C.takenAs className f v = .ok w ∧ Table.set f.name w attributes = others := by
  obtain ⟨spec, hspec, hfield⟩ := exists_modelField hmodel hshape hf
  obtain ⟨⟨hname, hinit, _⟩, _⟩ := modelField_eq_ok hfield
  obtain ⟨hmade, hknown⟩ := modelAttributes_eq_ok_iff.mp h
  have hgiven : Table.get? f.initName more = some v := by rw [hadds, if_pos rfl]
  have hown : C.modelAttribute (C.buildNested m) (C.floorChecks className) more spec =
      C.modelAttribute (C.buildNested v.dictDepth) (C.floorChecks className) [(f.initName, v)]
        spec := by
    refine modelAttribute_congr ?_ fun w hw => ?_
    · rw [← hinit, hgiven]
      simp [Table.get?]
    · rw [← hinit, hgiven] at hw
      cases hw
      exact C.agreeBelow_buildNested (Nat.le_trans (dictDepth_le_of_get? hgiven) hm)
        (Nat.le_refl _)
  have hothers : ∀ g ∈ C.fieldsOf className, g ≠ spec →
      C.modelAttribute (C.buildNested m) (C.floorChecks className) more g =
        C.modelAttribute (C.buildNested n) (C.floorChecks className) given g := by
    intro g hg hne
    have hget : Table.get? (modelInitName g) more = Table.get? (modelInitName g) given := by
      rw [hadds, if_neg (modelInitName_ne hC hmodel hshape honly hspec hname hg hne)]
    refine modelAttribute_congr hget fun w hw => ?_
    exact C.agreeBelow_buildNested (Nat.le_trans (dictDepth_le_of_get? hw) hm)
      (Nat.le_trans (dictDepth_le_of_get? (hget ▸ hw)) hn)
  rw [modelAttributes_eq_ok_iff, mapM_instead (hC.nodup_fieldsOf className) hspec
    (fun _ _ => name_modelAttribute) (fun _ => name_modelAttribute) hothers hmade, hown, hname]
  constructor
  · rintro ⟨⟨w, hw, hset⟩, _⟩
    exact ⟨w, (takenAs_of_model hC hmodel hspec hname).mpr hw, hset⟩
  · rintro ⟨w, hw, hset⟩
    refine ⟨⟨w, (takenAs_of_model hC hmodel hspec hname).mp hw, hset⟩, fun hforbids => ?_⟩
    exact hadds.forall_keys (fun key => ∃ g ∈ C.fieldsOf className, modelInitName g = key)
      (hknown hforbids) ⟨spec, hspec, hinit.symm⟩

/-- A constructor that made a record makes one with one more value when it takes the value and the
check of order passes; the two records differ under the name of the value's field only. -/
theorem construct_adds_iff (hC : C.WellFormed) (hshape : C.shape className = .ok shape)
    (hf : f ∈ shape.fields) (honly : ∀ g ∈ shape.fields, g.initName = f.initName → g = f)
    {front behind : List (String × Value)} (hnew : f.initName ∉ Table.keys (front ++ behind))
    (h : C.construct shape (front ++ behind) = .ok (.record className attributes)) {y : Value} :
    C.construct shape (front ++ (f.initName, v) :: behind) = .ok y ↔ ∃ w,
      C.takenAs className f v = .ok w ∧
        C.runOrderCheck className (Table.set f.name w attributes) = .ok () ∧
          .record className (Table.set f.name w attributes) = y := by
  cases hmodel : C.isModel className with
  | false =>
    obtain ⟨_, hattributes, _, heq⟩ := (construct_eq_ok_iff hmodel hshape).mp h
    cases heq
    have hmore :=
      recordAttributes_adds hC hmodel hshape hf (Table.Adds.of_insert hnew v) hattributes
    rw [construct_eq_ok_iff hmodel hshape, hmore]
    simp [hmodel]
  | true =>
    obtain ⟨_, hattributes, _, heq⟩ := (construct_model_eq_ok_iff hmodel hshape).mp h
    cases heq
    rw [construct_model_eq_ok_iff hmodel hshape]
    simp only [modelAttributes_adds_iff hC hmodel hshape hf honly (Table.Adds.of_bindings hnew v)
      (Nat.le_succ _) (Nat.le_succ _) hattributes]
    constructor
    · rintro ⟨_, ⟨w, hw, rfl⟩, hcheck, rfl⟩
      exact ⟨w, hw, hcheck, rfl⟩
    · rintro ⟨w, hw, hcheck, rfl⟩
      exact ⟨_, ⟨w, hw, rfl⟩, hcheck, rfl⟩

/-- A field that a constructor was given nothing for has its default, which a factory makes anew. -/
theorem get?_construct_default (hC : C.WellFormed) (hshape : C.shape className = .ok shape)
    (hf : f ∈ shape.fields) (hnone : f.initName ∉ Table.keys given)
    (h : C.construct shape given = .ok (.record className attributes)) :
    Table.get? f.name attributes = (C.defaultOf className f.name).fresh? := by
  have hget := (Table.get?_eq_none_iff _ _).mpr hnone
  cases hmodel : C.isModel className with
  | false =>
    obtain ⟨_, hattributes, _, heq⟩ := (construct_eq_ok_iff hmodel hshape).mp h
    cases heq
    obtain ⟨w, hw, hfound⟩ := get?_recordAttributes hC hmodel hshape hattributes hf
    rw [hget, Option.none_or] at hw
    rw [hfound, hw]
  | true =>
    obtain ⟨_, hattributes, _, heq⟩ := (construct_model_eq_ok_iff hmodel hshape).mp h
    cases heq
    refine (get?_modelAttributes_absent hC hmodel hshape hattributes hf).1 ?_
    rw [Table.get?_ofBindings, Table.get?_eq_none_iff, Table.keys, List.map_reverse,
      List.mem_reverse]
    exact hnone

end Classes

end HttpContract
