import HttpContract.Proofs.Records

/-!
# The field that a model's refusal names

A model refuses values under the name that its constructor takes for a field. Clients are told
their own name for the field, which is looked up among the fields in the order of their declaration,
by the fields' own names as well as by the constructor's. So the right field is named exactly when
no field that is declared before it has the looked up name as one of these two.
-/

namespace HttpContract

/-- A field is found under the constructor's name when no field before it has that name, be it as
its own or as the constructor's. -/
theorem Shape.wireNameOf_initName_iff {s : Shape} (hnames : (s.fields.map (·.wireName)).Nodup)
    {front behind : List Field} {f : Field} (hfields : s.fields = front ++ f :: behind) :
    s.wireNameOf f.initName = f.wireName ↔
      ∀ g ∈ front, g.name ≠ f.initName ∧ g.initName ≠ f.initName := by
  let known : Field → Bool := fun g => g.name = f.initName || g.initName = f.initName
  have hfound : s.wireNameOf f.initName = ((front.find? known).getD f).wireName := by
    have hself : known f = true := by simp [known]
    rw [wireNameOf, hfields, List.find?_append, List.find?_cons_of_pos hself]
    cases front.find? known <;> rfl
  constructor
  · intro hsame
    have hnone : front.find? known = none := by
      cases hfirst : front.find? known with
      | none => rfl
      | some g =>
        -- A field before this one would have its name for clients.
        rw [hfound, hfirst, Option.getD_some] at hsame
        rw [hfields, List.map_append, List.map_cons] at hnames
        have hwire : g.wireName ∈ front.map (·.wireName) :=
          List.mem_map_of_mem (List.mem_of_find?_eq_some hfirst)
        exact absurd hsame ((List.nodup_append.mp hnames).2.2 _ hwire _ List.mem_cons_self)
    intro g hg
    simpa [known] using List.find?_eq_none.mp hnone g hg
  · intro hfront
    have hnone : front.find? known = none :=
      List.find?_eq_none.mpr fun g hg => by simpa [known] using hfront g hg
    rw [hfound, hnone, Option.getD_none]

namespace Classes

variable {C : Classes} {className : String} {shape : Shape} {given : List (String × Value)}
  {key : Option String} {why : String}

/-- The attributes that a model makes of values for its constructor, or the name and the wording of
its first refusal. -/
def checked (C : Classes) (className : String) (given : List (String × Value)) :
    Except (Option String × String) (List (String × Value)) :=
  let values := Table.ofBindings given
  C.modelAttributes (C.buildNested (Value.dictDepthOfItems (values.map (·.2)) + 1)) className values

/-- What a model makes of the value for one of its fields, or the name and the wording of its
refusal. -/
def checkedField (C : Classes) (className : String) (given : List (String × Value))
    (spec : FieldSpec) : Except (Option String × String) (String × Value) :=
  let values := Table.ofBindings given
  C.modelAttribute (C.buildNested (Value.dictDepthOfItems (values.map (·.2)) + 1))
    (C.floorChecks className) values spec

/-- A refusal of the value for a field has the constructor's name of the field. -/
theorem key_of_checkedField {spec : FieldSpec}
    (h : C.checkedField className given spec = .error (key, why)) :
    key = some (modelInitName spec) := by
  unfold checkedField modelAttribute at h
  dsimp only at h
  split at h
  · rcases bind_eq_error_iff.mp h with h | ⟨_, _, h⟩
    · obtain ⟨_, _, h⟩ := mapError_eq_error_iff.mp h
      exact (congrArg Prod.fst h).symm
    · rcases bind_eq_error_iff.mp h with h | ⟨_, _, h⟩
      · obtain ⟨_, _, h⟩ := mapError_eq_error_iff.mp h
        exact (congrArg Prod.fst h).symm
      · cases h
  · split at h
    · cases h
    · exact (congrArg Prod.fst (Except.error.inj h)).symm

/-- A refusal under the constructor's name of a field is the refusal of the value for a field with
this name, and nothing is refused before it. -/
theorem exists_field_of_checked {spec : FieldSpec} (hspec : spec ∈ C.fieldsOf className)
    (h : C.checked className given = .error (some (modelInitName spec), why)) :
    ∃ before refused after, C.fieldsOf className = before ++ refused :: after ∧
      (∀ other ∈ before, ∃ made, C.checkedField className given other = .ok made) ∧
      modelInitName refused = modelInitName spec ∧
      C.checkedField className given refused = .error (some (modelInitName spec), why) := by
  unfold checked modelAttributes at h
  dsimp only at h
  rcases bind_eq_error_iff.mp h with h | ⟨attributes, _, h⟩
  · obtain ⟨before, refused, after, hfields, hbefore, hrefused⟩ := mapM_eq_error_iff.mp h
    have hkey := key_of_checkedField hrefused
    exact ⟨before, refused, after, hfields, hbefore, (Option.some.inj hkey).symm, hrefused⟩
  · -- A name that no field has is refused as such.
    split at h
    · split at h
      · rename_i name _ hextra
        have hforeign := List.find?_some hextra
        rw [List.all_eq_true] at hforeign
        cases h
        simpa using hforeign spec hspec
      · cases h
    · cases h

/-- What a model refuses its constructor refuses, under the name that is looked up for clients. -/
theorem construct_of_checked (hmodel : C.isModel className = true)
    (hshape : C.shape className = .ok shape) (h : C.checked className given = .error (key, why)) :
    C.construct shape given =
      .error (.refused (key.map shape.wireNameOf) (.byModel why)) := by
  obtain ⟨hname, _, _⟩ := shape_eq_ok hshape
  unfold checked at h
  unfold construct
  dsimp only at h ⊢
  rw [hname, hmodel, if_pos rfl, h]
  rfl

/-- A refusal is told under the right name exactly when the name that is looked up belongs to no
field declared earlier. Take any model with a shape and any values for its constructor that it
refuses first under the name that it takes for a field. Then it is the value for such a field that
is refused, all before it being fine; the constructor refuses the values, naming one field; and this
is the client's name of the field itself if and only if no field before it in the declaration has
the constructor's name of it, as its own name or as the constructor's. -/
theorem construct_names_refused (hmodel : C.isModel className = true)
    (hshape : C.shape className = .ok shape) {front behind : List Field} {f : Field}
    (hfields : shape.fields = front ++ f :: behind)
    (hrefused : C.checked className given = .error (some f.initName, why)) :
    (∃ before spec after, C.fieldsOf className = before ++ spec :: after ∧
        (∀ other ∈ before, ∃ made, C.checkedField className given other = .ok made) ∧
        modelInitName spec = f.initName ∧
        C.checkedField className given spec = .error (some f.initName, why)) ∧
      ∃ named, C.construct shape given = .error (.refused (some named) (.byModel why)) ∧
        (named = f.wireName ↔ ∀ g ∈ front, g.name ≠ f.initName ∧ g.initName ≠ f.initName) := by
  have hf : f ∈ shape.fields := by
    rw [hfields]
    exact List.mem_append_right _ List.mem_cons_self
  obtain ⟨spec, hspec, hmade⟩ := exists_modelField hmodel hshape hf
  obtain ⟨⟨_, hinit, _⟩, _⟩ := modelField_eq_ok hmade
  have hfirst := exists_field_of_checked hspec (hinit ▸ hrefused)
  rw [← hinit] at hfirst
  exact ⟨hfirst, shape.wireNameOf f.initName, construct_of_checked hmodel hshape hrefused,
    Shape.wireNameOf_initName_iff (shape_eq_ok hshape).2.2 hfields⟩

/-- A model with two numbers, of which the second one is given under the name of the first. -/
def crossed : Classes :=
  ({} : Classes).define
    { name := "Crossed", body := .model false [],
      fields := [
        { name := "left", default := .required, hint := .builtin .integer,
          options := some { outerName := some "middle" } },
        { name := "right", default := .required, hint := .builtin .integer,
          options := some { outerName := some "left" } }] }

/-- A text for the second number is reported under the client's name of the first one. -/
theorem construct_names_refused_crossed :
    let given : List (String × Value) := [("middle", .int 1), ("left", .text "x")]
    let why := "Input should be a valid integer, unable to parse string as an integer"
    ∃ shape first second, crossed.isModel "Crossed" = true ∧
      crossed.shape "Crossed" = .ok shape ∧ shape.fields = [first] ++ second :: [] ∧
      second.initName = "left" ∧ second.wireName = "left" ∧
      crossed.checked "Crossed" given = .error (some second.initName, why) ∧
      crossed.construct shape given = .error (.refused (some "middle") (.byModel why)) ∧
      ¬∀ g ∈ [first], g.name ≠ second.initName ∧ g.initName ≠ second.initName := by
  intro given why
  have hmade : ∃ shape first second, crossed.shape "Crossed" = .ok shape ∧
      shape.fields = [first] ++ second :: [] ∧ second.initName = "left" ∧
      second.wireName = "left" ∧
      crossed.checked "Crossed" given = .error (some second.initName, why) ∧
      crossed.construct shape given = .error (.refused (some "middle") (.byModel why)) :=
    ⟨_, _, _, rfl, rfl, rfl, rfl, rfl, rfl⟩
  obtain ⟨shape, first, second, hshape, hfields, hinit, hwire, hrefused, htold⟩ := hmade
  obtain ⟨_, named, hnamed, hiff⟩ := construct_names_refused rfl hshape hfields hrefused
  have hmiddle : named = "middle" := by
    rw [hnamed] at htold
    cases htold
    rfl
  refine ⟨shape, first, second, rfl, hshape, hfields, hinit, hwire, hrefused, htold, ?_⟩
  rw [← hiff, hmiddle, hwire]
  decide

end Classes

end HttpContract
