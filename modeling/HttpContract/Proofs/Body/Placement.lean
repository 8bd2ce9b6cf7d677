import HttpContract.Proofs.ConstraintOrder
import HttpContract.Proofs.Body.Typing

/-!
# Where constraints stand and where they are applied

A declaration checks the constraints of a field against its type, and against the items of arrays at
every depth. The reader of a body hands the constraints of an array on to its items, and starts anew
with those of the value type below a map. What is not below a map is therefore put under constraints
that fit it. Below a map nothing has been checked, and a constraint that does not fit there, or
whose pattern cannot be read, crashes the reader.
-/

namespace HttpContract

namespace Body

/-- Reading a JSON value as a type at a path, under constraints from outside, puts a value at a
place under constraints as one of a scalar type; and whether this is below a map of the type. -/
inductive Puts (C : Classes) : Bool → String → Json → TypeInfo → List Constraint →
    String → Scalar → List Constraint → Value → Prop
  | scalar {path : String} {j : Json} {s : Scalar} {nullable : Bool} {notes : List Note}
      {outer : List Constraint} {v : Value} (htakes : takesConstraints s = true)
      (hread : readScalar path s j = .ok v) :
      Puts C false path j (.leaf (.scalar s) nullable notes) outer path s
        (outer ++ constraintsIn notes) v
  | item {below : Bool} {path place : String} {front behind : List Json} {j : Json}
      {container : Container} {item : TypeInfo} {nullable : Bool} {notes : List Note}
      {outer cs : List Constraint} {s : Scalar} {v : Value}
      (hj : Puts C below (itemPath path front.length) j item (outer ++ constraintsIn notes)
        place s cs v) :
      Puts C below path (.array (front ++ j :: behind)) (.array container item nullable notes) outer
        place s cs v
  | value {below : Bool} {path key place : String} {front behind : List (String × Json)} {j : Json}
      {item : TypeInfo} {nullable : Bool} {notes : List Note} {outer cs : List Constraint}
      {s : Scalar} {v : Value} (hj : Puts C below (memberPath path key) j item [] place s cs v) :
      Puts C true path (.object (front ++ (key, j) :: behind)) (.map item nullable notes) outer
        place s cs v

variable {C : Classes} {below : Bool} {path place : String} {j : Json} {type item : TypeInfo}
  {outer cs constraints : List Constraint} {s : Scalar} {v w : Value}

/-- Items that are read are read one by one, each at its place. -/
theorem exists_of_readItems {front behind : List Json} {index : Nat} {vs : List Value}
    (h : readItems item path constraints index (itemReaders C (front ++ j :: behind)) = .ok vs) :
    ∃ w, read C j item (itemPath path (index + front.length)) constraints = .ok w := by
  induction front generalizing index vs with
  | nil =>
    rw [List.nil_append, itemReaders, readItems] at h
    obtain ⟨w, hw, _⟩ := bind_eq_ok_iff.mp h
    exact ⟨w, hw⟩
  | cons first rest ih =>
    rw [List.cons_append, itemReaders, readItems] at h
    obtain ⟨_, _, h⟩ := bind_eq_ok_iff.mp h
    obtain ⟨others, hothers, _⟩ := bind_eq_ok_iff.mp h
    have hshift : index + (first :: rest).length = index + 1 + rest.length := by
      rw [List.length_cons]
      omega
    rw [hshift]
    exact ih hothers

/-- Members that are read are read one by one, each at its place. -/
theorem exists_of_readEntries {front behind : List (String × Json)} {key : String}
    {entries : List (Value × Value)}
    (h : readEntries item path (memberReaders C (front ++ (key, j) :: behind)) = .ok entries) :
    ∃ w, read C j item (memberPath path key) [] = .ok w := by
  induction front generalizing entries with
  | nil =>
    rw [List.nil_append, memberReaders, readEntries] at h
    obtain ⟨w, hw, _⟩ := bind_eq_ok_iff.mp h
    exact ⟨w, hw⟩
  | cons first rest ih =>
    obtain ⟨name, data⟩ := first
    rw [List.cons_append, memberReaders, readEntries] at h
    obtain ⟨_, _, h⟩ := bind_eq_ok_iff.mp h
    obtain ⟨others, hothers, _⟩ := bind_eq_ok_iff.mp h
    exact ih hothers

/-- Where a JSON value is read, every value that is put under constraints has passed them. -/
theorem Puts.accepted (h : Puts C below path j type outer place s cs v)
    (hread : read C j type path outer = .ok w) :
    ∃ u, applyConstraints cs v place = .ok u := by
  induction h generalizing w with
  | @scalar path j s nullable notes outer v htakes hscalar =>
    have hj : j ≠ .null := by
      rintro rfl
      cases s with
      | text | integer | number => cases hscalar
      | boolean | uuid | date | dateTime => cases htakes
    rw [read_leaf hj rfl] at hread
    obtain ⟨u, hu, hpassed⟩ := bind_eq_ok_iff.mp hread
    rw [if_pos htakes] at hpassed
    obtain rfl : v = u := Except.ok.inj (hscalar.symm.trans hu)
    exact ⟨w, hpassed⟩
  | item hj ih =>
    rw [read_array] at hread
    obtain ⟨vs, hvs, _⟩ := bind_eq_ok_iff.mp hread
    obtain ⟨u, hu⟩ := exists_of_readItems hvs
    rw [Nat.zero_add] at hu
    exact ih hu
  | value hj ih =>
    rw [read_map] at hread
    obtain ⟨entries, hentries, _⟩ := map_eq_ok_iff.mp hread
    obtain ⟨u, hu⟩ := exists_of_readEntries hentries
    exact ih hu

/-- What is put under constraints has been read as a scalar. -/
theorem Puts.exists_readScalar (h : Puts C below path j type outer place s cs v) :
    takesConstraints s = true ∧ ∃ k, readScalar place s k = .ok v := by
  induction h with
  | scalar htakes hread => exact ⟨htakes, _, hread⟩
  | item _ ih | value _ ih => exact ih

/-- What fits a scalar type fits it whatever else is noted there. -/
theorem fits_scalar {c : Constraint} {nullable : Bool} {notes : List Note}
    (h : c.Fits (.leaf (.scalar s) nullable notes)) : c.Fits (.leaf (.scalar s) false []) := by
  cases s <;> exact h

/-- Outside of maps, constraints from outside that fit a checked type are put to scalars that they
fit, together with those of the type. -/
theorem Puts.fits {owner : String} (h : Puts C below path j type outer place s cs v)
    (houtside : below = false)
    (hcheck : checkConstraints owner type type.constraints = .ok ())
    (houter : ∀ c ∈ outer, c.Fits type) : ∀ c ∈ cs, c.Fits (.leaf (.scalar s) false []) := by
  induction h with
  | scalar htakes hread =>
    have hown := fits_of_checkEach hcheck
    exact fun c hc => fits_scalar (List.forall_mem_append.mpr ⟨houter, hown⟩ c hc)
  | item hj ih =>
    -- No constraint fits an array, so none has come from outside.
    obtain ⟨_, hown, hitem⟩ := bind_eq_ok_iff.mp hcheck
    refine ih houtside hitem (List.forall_mem_append.mpr ⟨fun c hc => ?_, fits_of_checkEach hown⟩)
    cases (houter c hc).1
  | value hj ih => cases houtside

end Body

/-- Constraints pass the check against a type exactly when they fit it. -/
theorem checkEach_eq_ok_iff {owner label : String} {type : TypeInfo}
    {constraints : List Constraint} :
    checkEach owner label type constraints = .ok () ↔ ∀ c ∈ constraints, c.Fits type := by
  refine ⟨fits_of_checkEach, fun h => ?_⟩
  induction constraints with
  | nil => rfl
  | cons c rest ih =>
    obtain ⟨⟨hadmits, hpattern⟩, hrest⟩ := List.forall_mem_cons.mp h
    have hc : c.check owner label type = .ok () := by
      cases c with
      | pattern regex message =>
        simp only [Constraint.check, if_pos hadmits, hpattern regex message rfl]
      | _ => exact if_pos hadmits
    exact bind_eq_ok_iff.mpr ⟨(), hc, ih hrest⟩

namespace TypeInfo

/-- A type with nothing said of the values of its maps. -/
def withoutMapValues : TypeInfo → TypeInfo
  | .leaf form nullable notes => .leaf form nullable notes
  | .array container item nullable notes => .array container item.withoutMapValues nullable notes
  | .map _ nullable notes => .map (.leaf .any false []) nullable notes

/-- What is below the maps of a type is no part of its own constraints. -/
theorem constraints_withoutMapValues (type : TypeInfo) :
    type.withoutMapValues.constraints = type.constraints := by
  cases type <;> rfl

end TypeInfo

/-- Whether a constraint fits a type does not depend on what is below its maps. -/
theorem Constraint.fits_withoutMapValues (c : Constraint) (type : TypeInfo) :
    c.Fits type.withoutMapValues ↔ c.Fits type := by
  cases type <;> exact Iff.rfl

/-- Constraints are checked without looking below maps: they are accepted for a type exactly when
they are with nothing said of the values of its maps. -/
theorem checkConstraints_withoutMapValues (owner : String) (type : TypeInfo)
    (constraints : List Constraint) :
    checkConstraints owner type.withoutMapValues constraints = .ok () ↔
      checkConstraints owner type constraints = .ok () := by
  induction type generalizing constraints with
  | leaf form nullable notes => exact Iff.rfl
  | map item nullable notes ih =>
    simp only [TypeInfo.withoutMapValues, checkConstraints, checkEach_eq_ok_iff]
    exact Iff.rfl
  | array container item nullable notes ih =>
    have hown (label label' : String) : checkEach owner label item.withoutMapValues constraints =
        .ok () ↔ checkEach owner label' item constraints = .ok () := by
      rw [checkEach_eq_ok_iff, checkEach_eq_ok_iff]
      exact forall₂_congr fun c _ => c.fits_withoutMapValues item
    simp only [TypeInfo.withoutMapValues, checkConstraints, bind_eq_ok_iff,
      TypeInfo.constraints_withoutMapValues, ih]
    exact exists_congr fun _ => and_congr_left fun _ => hown _ _

namespace Classes

/-- Where constraints fit what they are applied to: whatever record is declared and whatever JSON
value is read as one of its fields, the constraints that a value is put under outside of the maps of
the field's type can be attached to its scalar type and their patterns can be read, so that they
accept the value or refuse it, at worst with a refusal that cannot be worded. For what is below the
maps the declaration asks nothing; it checks the same with nothing said of them. And nothing is read
that holds a value which does not pass the constraints that it is put under, below a map or not. -/
theorem fits_outside_maps {C : Classes} {className : String} {shape : Shape} {f : Field}
    (hshape : C.shape className = .ok shape) (hf : f ∈ shape.fields) :
    (∀ below path j place s cs v, Body.Puts C below path j f.type [] place s cs v →
      (below = true ∨ (∀ c ∈ cs, c.Fits (.leaf (.scalar s) false [])) ∧
        ((∃ w, applyConstraints cs v place = .ok w) ∨
          ∃ e, applyConstraints cs v place = .error e ∧ e.IsRefusal cs)) ∧
      ∀ w, Body.readValue C f.type j path = .ok w →
        ∃ u, applyConstraints cs v place = .ok u) ∧
    ∀ owner, checkConstraints owner f.type f.constraints = .ok () ↔
      checkConstraints owner f.type.withoutMapValues f.constraints = .ok () := by
  refine ⟨fun below path j place s cs v hputs => ⟨?_, fun w hread => hputs.accepted hread⟩,
    fun owner => (checkConstraints_withoutMapValues owner f.type f.constraints).symm⟩
  cases below with
  | true => exact Or.inl rfl
  | false =>
    obtain ⟨owner, hcheck⟩ := checkConstraints_of_mem hshape hf
    have hfits := hputs.fits rfl hcheck fun c hc => (nomatch hc)
    obtain ⟨_, k, hread⟩ := hputs.exists_readScalar
    have hv : ∀ parsed, Binding.parameterType? (.leaf (.scalar s) false []) = some parsed →
        Binding.Parsed parsed v := by
      rintro parsed ⟨⟩
      exact Body.parsed_readScalar hread
    exact Or.inr ⟨hfits, applyConstraints_cases hfits hv place⟩

/-- A record with counts and with names under keys: a length is asked of the counts, and a pattern
that cannot be read of the names. -/
def boxes : Classes :=
  ({} : Classes).define
    { name := "Box", body := .record false,
      fields := [
        { name := "sizes", default := .required,
          hint := .collection .list
            (.annotated (.builtin .integer) [.constraint (.min (.int 1) none)]) },
        { name := "counts", default := .required,
          hint := .mapping .dict (.builtin .text)
            (.annotated (.builtin .integer) [.constraint (.minLength 3 none)]) },
        { name := "names", default := .required,
          hint := .mapping .dict (.builtin .text)
            (.annotated (.builtin .text) [.constraint (.pattern "[" none)]) }] }

/-- The sizes are under a bound that fits them. A count does not have the length that is asked of
it, and the pattern for a name cannot be read, but both are below a map: the record is declared all
the same, and reading them crashes. -/
theorem fits_outside_maps_boxes :
    ∃ shape sizes counts names, boxes.shape "Box" = .ok shape ∧
      shape.fields = [sizes, counts, names] ∧
      (∀ c ∈ [Constraint.min (.int 1) none], c.Fits (.leaf (.scalar .integer) false [])) ∧
      Body.Puts boxes true "counts" (.object [("a", .int 1)]) counts.type []
        "counts.a" .integer [.minLength 3 none] (.int 1) ∧
      Body.readValue boxes counts.type (.object [("a", .int 1)]) "counts" =
        .error (.fault (.misuse "object of type 'int' has no len()")) ∧
      Body.readValue boxes names.type (.object [("a", .text "x")]) "names" =
        .error (.fault (.badPattern "unterminated character set at position 0")) := by
  have hmade : ∃ shape sizes counts names, boxes.shape "Box" = .ok shape ∧
      shape.fields = [sizes, counts, names] ∧
      sizes.type = .array .list
        (.leaf (.scalar .integer) false [.constraint (.min (.int 1) none)]) false [] ∧
      counts.type = .map
        (.leaf (.scalar .integer) false [.constraint (.minLength 3 none)]) false [] ∧
      Body.readValue boxes counts.type (.object [("a", .int 1)]) "counts" =
        .error (.fault (.misuse "object of type 'int' has no len()")) ∧
      Body.readValue boxes names.type (.object [("a", .text "x")]) "names" =
        .error (.fault (.badPattern "unterminated character set at position 0")) :=
    ⟨_, _, _, _, rfl, rfl, rfl, rfl, rfl, rfl⟩
  obtain ⟨shape, sizes, counts, names, hshape, hfields, hsizes, hcounts, hlength, hpattern⟩ :=
    hmade
  have hf : sizes ∈ shape.fields := by simp [hfields]
  have hsize : Body.Puts boxes false "sizes" (.array [.int 4]) sizes.type [] "sizes[0]" .integer
      [.min (.int 1) none] (.int 4) := by
    rw [hsizes]
    exact @Body.Puts.item boxes false "sizes" _ [] [] _ _ _ _ _ _ _ _ _ (.scalar rfl rfl)
  have hcount : Body.Puts boxes true "counts" (.object [("a", .int 1)]) counts.type []
      "counts.a" .integer [.minLength 3 none] (.int 1) := by
    rw [hcounts]
    exact @Body.Puts.value boxes false "counts" "a" _ [] [] _ _ _ _ _ _ _ _ (.scalar rfl rfl)
  have hplaced := (fits_outside_maps hshape hf).1 _ _ _ _ _ _ _ hsize
  have hfits := (hplaced.1.resolve_left nofun).1
  exact ⟨shape, sizes, counts, names, hshape, hfields, hfits, hcount, hlength, hpattern⟩

end Classes

end HttpContract
