import HttpContract.Proofs.Constraints
import HttpContract.Proofs.Records
import HttpContract.Proofs.Tables
import HttpContract.Proofs.Schema.Content

/-!
# What a schema admits and what constraints accept

Constraints are enforced one after the other, while the schema of a field has one value for each
attribute, that of the last constraint that sets it. A value that meets what is shown is accepted as
it is if it also meets what was replaced. Without a clamp, which changes values instead of refusing
them, these are the only values that are accepted as they are.
-/

namespace HttpContract

/-- Whether a value has what an attribute of a schema asks for. -/
def Value.Meets (v : Value) : ConstraintAttribute → Json → Prop
  | .minimum, .number bound => ∃ n, v.asNumber? = some n ∧ n.less bound = false
  | .maximum, .number bound => ∃ n, v.asNumber? = some n ∧ bound.less n = false
  | .minLength, .number (.int bound) => ∃ s, v.asText? = some s ∧ bound ≤ (s.length : Int)
  | .maxLength, .number (.int bound) => ∃ s, v.asText? = some s ∧ (s.length : Int) ≤ bound
  | .pattern, .text regex => ∃ s, v.asText? = some s ∧ matchesRegex regex s false = true
  | _, _ => False

/-- Whether a value has what the constraint attributes of a schema ask for. -/
def Schema.Admits (s : Schema) (v : Value) : Prop :=
  ∀ key value, Table.get? key s.limits = some value → v.Meets key value

/-- Whether a value counts as one of the types that constraints are for: a text, or a number. -/
def Scalar.Takes : Scalar → Value → Prop
  | .text, v => ∃ s, v.asText? = some s
  | .integer, v | .number, v => ∃ n, v.asNumber? = some n
  | _, _ => False

namespace Constraint

/-- Whether a constraint moves values to its bounds. -/
def isClamp : Constraint → Bool
  | .clamp .. => true
  | _ => false

variable {c : Constraint} {place : String} {v w : Value} {type : Scalar} {nullable : Bool}
  {notes : List Note}

/-- A constraint that reshapes sets no attributes. -/
theorem attributes_of_isTransform (h : c.isTransform = true) : c.attributes = [] := by
  cases c with
  | trim | lower | upper => rfl
  | _ => cases h

/-- The length of what counts as a text is that of the text. -/
theorem lengthOf_of_asText? {s : String} (h : v.asText? = some s) : lengthOf v = .ok s.length := by
  cases v with
  | text t =>
    cases h
    rfl
  | member enum name mixin value =>
    cases mixin <;> cases value <;> cases h
    rfl
  | _ => cases h

/-- A test is passed with its value exactly when its condition does not hold. -/
theorem test_eq_ok_iff {ε α : Type} {p : Prop} [Decidable p] {e : ε} {v : α} :
    (if p then throw e else pure v : Except ε α) = .ok v ↔ ¬p := by
  by_cases hp : p
  · rw [if_pos hp]
    exact iff_of_false (fun h => (nomatch h)) (fun h => h hp)
  · rw [if_neg hp]
    exact iff_of_true rfl hp

/-- A value passes a constraint that neither reshapes nor clamps exactly when it meets the
attributes that the constraint sets, and then it stays as it is. -/
theorem apply_eq_ok_iff (hfits : c.Fits (.leaf (.scalar type) nullable notes)) (hv : type.Takes v)
    (htransform : c.isTransform = false) (hclamp : c.isClamp = false) :
    c.apply place v = .ok v ↔ ∀ p ∈ c.attributes, v.Meets p.1 p.2 := by
  obtain ⟨hadmits, hpattern⟩ := hfits
  -- A constraint fits one kind of types only, and of these the value counts as a number or a text.
  cases c with
  | clamp low high => cases hclamp
  | trim | lower | upper => cases htransform
  | min bound message | max bound message =>
    cases type with
    | integer | number =>
      obtain ⟨n, hn⟩ := hv
      simp only [attributes, List.forall_mem_singleton, Value.Meets, apply, numberOf, hn]
      exact test_eq_ok_iff.trans (by simp)
    | _ => cases hadmits
  | minLength bound message | maxLength bound message =>
    cases type with
    | text =>
      obtain ⟨s, hs⟩ := hv
      simp only [attributes, List.forall_mem_singleton, Json.int, Value.Meets, apply,
        lengthOf_of_asText? hs, hs]
      exact test_eq_ok_iff.trans (by simp)
    | _ => cases hadmits
  | length low high message =>
    cases type with
    | text =>
      obtain ⟨s, hs⟩ := hv
      rw [attributes, List.forall_mem_cons, List.forall_mem_singleton]
      simp only [Json.int, Value.Meets, apply, lengthOf_of_asText? hs, hs, bind, Except.bind]
      rw [← ite_not]
      exact test_eq_ok_iff.trans (by simp)
    | _ => cases hadmits
  | pattern regex message =>
    cases type with
    | text =>
      obtain ⟨s, hs⟩ := hv
      simp only [attributes, List.forall_mem_singleton, Value.Meets, apply,
        hpattern regex message rfl, hs]
      rw [← ite_not]
      exact test_eq_ok_iff.trans (by simp)
    | _ => cases hadmits

/-- A clamp leaves a value as it is that meets the attributes that it sets. -/
theorem apply_clamp_of_meets {low high : Number}
    (h : ∀ p ∈ (Constraint.clamp low high).attributes, v.Meets p.1 p.2) :
    (Constraint.clamp low high).apply place v = .ok v := by
  obtain ⟨n, hn, hlow⟩ := h (.minimum, .number low) List.mem_cons_self
  obtain ⟨m, hm, hhigh⟩ := h (.maximum, .number high) (List.mem_cons_of_mem _ List.mem_cons_self)
  obtain rfl : n = m := Option.some.inj (hn.symm.trans hm)
  simp [apply, clampValue, numberOf, hn, hlow, hhigh, bind, Except.bind, pure, Except.pure]

/-- A value that meets the attributes that a constraint sets passes it as it is. -/
theorem apply_of_meets (hfits : c.Fits (.leaf (.scalar type) nullable notes)) (hv : type.Takes v)
    (htransform : c.isTransform = false) (h : ∀ p ∈ c.attributes, v.Meets p.1 p.2) :
    c.apply place v = .ok v := by
  cases hclamp : c.isClamp with
  | false => exact (apply_eq_ok_iff hfits hv htransform hclamp).mpr h
  | true =>
    cases c with
    | clamp low high => exact apply_clamp_of_meets h
    | _ => cases hclamp

/-- A constraint that neither reshapes nor clamps leaves a value that passes it as it is. -/
theorem eq_of_apply (htransform : c.isTransform = false) (hclamp : c.isClamp = false)
    (h : c.apply place v = .ok w) : w = v := by
  cases c with
  | clamp low high => cases hclamp
  | trim | lower | upper => cases htransform
  | min bound message | max bound message | minLength bound message | maxLength bound message =>
    obtain ⟨n, _, h⟩ := bind_eq_ok_iff.mp h
    exact (eq_of_test h).symm
  | length low high message =>
    obtain ⟨n, _, h⟩ := bind_eq_ok_iff.mp h
    rw [← ite_not] at h
    exact (eq_of_test h).symm
  | pattern regex message =>
    simp only [apply] at h
    split at h
    · cases h
    · split at h
      · cases h
      · rw [← ite_not] at h
        exact (eq_of_test h).symm

end Constraint

section Order

variable {constraints : List Constraint} {place : String} {v w : Value}

/-- A value that passes each of several constraints as it is passes all of them as it is. -/
theorem applyInOrder_of_forall (h : ∀ c ∈ constraints, c.apply place v = .ok v) :
    applyInOrder place constraints v = .ok v := by
  induction constraints with
  | nil => rfl
  | cons c rest ih =>
    obtain ⟨hfirst, hrest⟩ := List.forall_mem_cons.mp h
    rw [applyInOrder, hfirst]
    exact ih hrest

/-- Without reshaping and clamps a value that passes several constraints passes each as it is. -/
theorem forall_of_applyInOrder
    (hplain : ∀ c ∈ constraints, c.isTransform = false ∧ c.isClamp = false)
    (h : applyInOrder place constraints v = .ok w) :
      ∀ c ∈ constraints, c.apply place v = .ok v := by
  induction constraints with
  | nil => exact fun _ hc => (nomatch hc)
  | cons c rest ih =>
    obtain ⟨hc, hothers⟩ := List.forall_mem_cons.mp hplain
    obtain ⟨between, hfirst, hrest⟩ := bind_eq_ok_iff.mp h
    obtain rfl := Constraint.eq_of_apply hc.1 hc.2 hfirst
    exact List.forall_mem_cons.mpr ⟨hfirst, ih hothers hrest⟩

/-- After the constraints that reshape have left a value as it is, the others remain. -/
theorem applyConstraints_of_kept
    (hkept : applyInOrder place (constraints.filter Constraint.isTransform) v = .ok v) :
    applyConstraints constraints v place =
      applyInOrder place (constraints.filter fun c => !c.isTransform) v := by
  rw [applyConstraints, applyInOrder_append, hkept]
  rfl

variable {type : Scalar} {nullable : Bool} {notes : List Note}

/-- A value that the reshaping leaves as it is, and that meets all attributes that constraints set,
is accepted as it is. -/
theorem applyConstraints_of_meets
    (hfits : ∀ c ∈ constraints, c.Fits (.leaf (.scalar type) nullable notes)) (hv : type.Takes v)
    (hkept : applyInOrder place (constraints.filter Constraint.isTransform) v = .ok v)
    (hmeets : ∀ c ∈ constraints, ∀ p ∈ c.attributes, v.Meets p.1 p.2) :
    applyConstraints constraints v place = .ok v := by
  rw [applyConstraints_of_kept hkept]
  refine applyInOrder_of_forall fun c hc => ?_
  obtain ⟨hc, htransform⟩ := List.mem_filter.mp hc
  rw [Bool.not_eq_true'] at htransform
  exact Constraint.apply_of_meets (hfits c hc) hv htransform (hmeets c hc)

/-- If no constraint clamps, a value that the reshaping leaves as it is is accepted only if it meets
all attributes that the constraints set. -/
theorem meets_of_applyConstraints
    (hfits : ∀ c ∈ constraints, c.Fits (.leaf (.scalar type) nullable notes)) (hv : type.Takes v)
    (hkept : applyInOrder place (constraints.filter Constraint.isTransform) v = .ok v)
    (hclamp : ∀ c ∈ constraints, c.isClamp = false)
    (h : applyConstraints constraints v place = .ok w) :
    ∀ c ∈ constraints, ∀ p ∈ c.attributes, v.Meets p.1 p.2 := by
  rw [applyConstraints_of_kept hkept] at h
  have hpassed := forall_of_applyInOrder (fun c hc => ?_) h
  · intro c hc
    cases htransform : c.isTransform with
    | true =>
      rw [Constraint.attributes_of_isTransform htransform]
      exact fun _ hp => (nomatch hp)
    | false =>
      have hremains : c ∈ constraints.filter fun c => !c.isTransform :=
        List.mem_filter.mpr ⟨hc, by rw [htransform]; rfl⟩
      exact (Constraint.apply_eq_ok_iff (hfits c hc) hv htransform (hclamp c hc)).mp
        (hpassed c hremains)
  · obtain ⟨hc, htransform⟩ := List.mem_filter.mp hc
    rw [Bool.not_eq_true'] at htransform
    exact ⟨htransform, hclamp c hc⟩

end Order

/-- Whether a setting of an attribute is not shown: a later one is for the same attribute. -/
def Replaced (constraints : List Constraint) (setting : ConstraintAttribute × Json) : Prop :=
  ∃ front behind, constraints.flatMap Constraint.attributes = front ++ setting :: behind ∧
    setting.1 ∈ Table.keys behind

/-- All settings have a property exactly when those that are shown have it and those that were
replaced. -/
theorem forall_settings_iff (constraints : List Constraint)
    (P : ConstraintAttribute → Json → Prop) :
    (∀ c ∈ constraints, ∀ p ∈ c.attributes, P p.1 p.2) ↔
      (∀ key value, Table.get? key (schemaAttributes constraints) = some value → P key value) ∧
        ∀ p, Replaced constraints p → P p.1 p.2 := by
  have hall : (∀ c ∈ constraints, ∀ p ∈ c.attributes, P p.1 p.2) ↔
      ∀ p ∈ constraints.flatMap Constraint.attributes, P p.1 p.2 := by
    simp only [List.mem_flatMap]
    exact ⟨fun h p ⟨c, hc, hp⟩ => h c hc p hp, fun h c hc p hp => h p ⟨c, hc, hp⟩⟩
  rw [hall]
  constructor
  · intro h
    refine ⟨fun key value hget => ?_, fun p ⟨front, behind, hsettings, _⟩ => h p ?_⟩
    · have hmem := Table.mem_of_get? ((Table.get?_ofBindings _ _).symm.trans hget)
      exact h (key, value) (List.mem_reverse.mp hmem)
    · rw [hsettings]
      exact List.mem_append_right _ List.mem_cons_self
  · rintro ⟨hshown, hreplaced⟩ p hp
    obtain hget | hlater := Table.get?_ofBindings_or hp
    · exact hshown p.1 p.2 hget
    · exact hreplaced p hlater

/-- The attributes that constraints set have distinct names. -/
theorem distinct_schemaAttributes (constraints : List Constraint) :
    (schemaAttributes constraints).Distinct :=
  Table.distinct_ofBindings _

namespace Schema

variable {s : Schema} {d : Decoration}

/-- Attributes laid on top of a schema are set after its own. A reference has none of its own. -/
theorem limits_decorate_of_distinct (hs : s.reference = none ∨ s.limits = [])
    (hlimits : s.limits.Distinct) :
    (s.decorate d).limits = Table.ofBindings (s.limits ++ d.limits) := by
  have hown : Table.ofBindings s.limits = s.limits := Table.ofBindings_of_distinct hlimits
  unfold decorate
  split
  · rename_i hempty
    simp only [Decoration.isEmpty, Bool.and_eq_true, List.isEmpty_iff] at hempty
    rw [hempty.1.1, List.append_nil, hown]
  · split
    · rename_i hreference
      obtain hs | hs := hs
      · simp [hs] at hreference
      · rw [hs, List.nil_append]
        rfl
    · rw [Table.ofBindings, List.foldl_append, ← Table.ofBindings, hown]
      rfl

/-- A schema without attributes of constraints has those that are laid on top. -/
theorem limits_decorate (hs : s.limits = []) (hd : d.limits.Distinct) :
    (s.decorate d).limits = d.limits := by
  have hdistinct : s.limits.Distinct := by
    rw [hs]
    exact List.nodup_nil
  rw [limits_decorate_of_distinct (Or.inr hs) hdistinct, hs, List.nil_append,
    Table.ofBindings_of_distinct hd]

/-- A schema that is no reference keeps its attributes if none are laid on top. -/
theorem limits_decorate_of_nil (hs : s.reference = none) (hd : d.limits = []) :
    (s.decorate d).limits = s.limits := by
  have hreference : ¬s.reference.isSome = true := by simp [hs]
  unfold decorate
  split
  · rfl
  · rw [withDecoration, hd]
    rfl

/-- Laying something on top of a schema that is no reference leaves every part of it alone but its
attributes, whether it may be null, and its default. -/
theorem part_decorate {Part : Type} (part : Schema → Part)
    (hpart : ∀ s limits nullable default, part { s with limits, nullable, default } = part s)
    (hs : s.reference = none) : part (s.decorate d) = part s := by
  have hreference : ¬s.reference.isSome = true := by simp [hs]
  unfold decorate
  split
  · rfl
  · exact hpart ..

/-- Laying something on top of a schema that is no reference makes none of it. -/
theorem reference_decorate (hs : s.reference = none) : (s.decorate d).reference = none :=
  (part_decorate reference (fun _ _ _ _ => rfl) hs).trans hs

end Schema

/-- What the constraints on a type show in its schema. Those on an array are shown at its items. -/
def TypeInfo.shown : TypeInfo → ConstraintAttributes
  | .leaf _ _ notes | .map _ _ notes => schemaAttributes (constraintsIn notes)
  | .array .. => []

namespace Classes

variable {C : Classes} {className : String} {shape : Shape} {f : Field} {type : Scalar}
  {nullable : Bool} {notes : List Note}

/-- The schema of a type shows what the constraints on the type show. -/
theorem limits_schemaOf (C : Classes) (type : TypeInfo) :
    (C.schemaOf type).limits = type.shown := by
  cases type with
  | leaf form nullable notes =>
    have hplain : (C.plainSchema form).limits = [] := by
      cases form with
      | scalar type => cases type <;> rfl
      | _ => rfl
    exact Schema.limits_decorate hplain (distinct_schemaAttributes _)
  | array container item nullable notes => exact Schema.limits_decorate rfl List.nodup_nil
  | map item nullable notes => exact Schema.limits_decorate rfl (distinct_schemaAttributes _)

/-- The property of a scalar field shows the attributes that its constraints set. -/
theorem limits_propertyOf (htype : f.type = .leaf (.scalar type) nullable notes) {s : Schema}
    (hs : C.propertyOf f = .ok s) : s.limits = schemaAttributes f.constraints := by
  have hlimits : (C.schemaOf f.type).limits = schemaAttributes f.constraints := by
    rw [limits_schemaOf, Field.constraints, htype]
    rfl
  have hreference : (C.schemaOf f.type).reference = none := by
    rw [htype]
    exact Schema.reference_decorate (by cases type <;> rfl)
  obtain rfl | ⟨default, rfl⟩ := propertyOf_cases hs
  · exact hlimits
  · rw [Schema.limits_decorate_of_nil hreference rfl, hlimits]

/-- A value of a scalar field that the reshaping leaves as it is, and that meets both what the
schema of the field shows and what later constraints replaced there, is accepted as it is. If no
constraint clamps, no other value is accepted as it is. -/
theorem accepts_of_admits (h : C.shape className = .ok shape) (hf : f ∈ shape.fields)
    (htype : f.type = .leaf (.scalar type) nullable notes) {s : Schema}
    (hs : C.propertyOf f = .ok s) {v : Value} {place : String} (hv : type.Takes v)
    (hkept : applyInOrder place (f.constraints.filter Constraint.isTransform) v = .ok v) :
    (s.Admits v ∧ (∀ p, Replaced f.constraints p → v.Meets p.1 p.2) →
      applyConstraints f.constraints v place = .ok v) ∧
    ((∀ c ∈ f.constraints, c.isClamp = false) →
      (applyConstraints f.constraints v place = .ok v ↔
        s.Admits v ∧ ∀ p, Replaced f.constraints p → v.Meets p.1 p.2)) := by
  obtain ⟨owner, hcheck⟩ := checkConstraints_of_mem h hf
  have hfits : ∀ c ∈ f.constraints, c.Fits (.leaf (.scalar type) nullable notes) := by
    rw [htype] at hcheck
    rw [Field.constraints, htype]
    exact fits_of_checkEach hcheck
  have hsplit : s.Admits v ∧ (∀ p, Replaced f.constraints p → v.Meets p.1 p.2) ↔
      ∀ c ∈ f.constraints, ∀ p ∈ c.attributes, v.Meets p.1 p.2 := by
    rw [Schema.Admits, limits_propertyOf htype hs]
    exact (forall_settings_iff f.constraints v.Meets).symm
  rw [hsplit]
  have haccepts := applyConstraints_of_meets hfits hv hkept
  exact ⟨haccepts, fun hclamp => ⟨meets_of_applyConstraints hfits hv hkept hclamp, haccepts⟩⟩

/-- A record with a number that has two lower bounds, the tighter one in front. -/
def twice : Classes :=
  ({} : Classes).define
    { name := "Twice", body := .record false,
      fields := [
        { name := "x", default := .required,
          hint := .annotated (.builtin .integer)
            [.constraint (.min (.int 5) none), .constraint (.min (.int 3) none)] }] }

/-- The schema shows the bound 3 and so admits 4, which the bound 5 that was replaced refuses; 7 is
accepted. -/
theorem accepts_of_admits_twice :
    ∃ shape f s, twice.shape "Twice" = .ok shape ∧ f ∈ shape.fields ∧
      twice.propertyOf f = .ok s ∧
      (s.Admits (.int 4) ∧ applyConstraints f.constraints (.int 4) "x" ≠ .ok (.int 4)) ∧
      (s.Admits (.int 7) ∧ applyConstraints f.constraints (.int 7) "x" = .ok (.int 7)) := by
  have hmade : ∃ shape f s, twice.shape "Twice" = .ok shape ∧ shape.fields = [f] ∧
      twice.propertyOf f = .ok s ∧ (∃ notes, f.type = .leaf (.scalar .integer) false notes) ∧
      f.constraints = [.min (.int 5) none, .min (.int 3) none] ∧
      s.limits = [(.minimum, .int 3)] := ⟨_, _, _, rfl, rfl, rfl, ⟨_, rfl⟩, rfl, rfl⟩
  obtain ⟨shape, f, s, hshape, hfields, hs, ⟨notes, htype⟩, hconstraints, hlimits⟩ := hmade
  have hf : f ∈ shape.fields := hfields ▸ List.mem_singleton_self f
  have hadmits (v : Value) (hv : v.Meets .minimum (.int 3)) : s.Admits v := by
    intro key value hvalue
    rw [hlimits] at hvalue
    have hmem := Table.mem_of_get? hvalue
    cases List.mem_singleton.mp hmem
    exact hv
  have hlower (n bound : Int) (h : (Number.int n).less (.int bound) = false) :
      (Value.int n).Meets .minimum (.int bound) := ⟨.int n, rfl, h⟩
  have hseven (p : ConstraintAttribute × Json) (hp : Replaced f.constraints p) :
      (Value.int 7).Meets p.1 p.2 := by
    obtain ⟨front, behind, hsettings, _⟩ := hp
    have hmem : p ∈ f.constraints.flatMap Constraint.attributes :=
      hsettings ▸ List.mem_append_right front List.mem_cons_self
    rw [hconstraints] at hmem
    obtain rfl | hmem := List.mem_cons.mp hmem
    · exact hlower 7 5 (by decide)
    · obtain rfl := List.mem_singleton.mp hmem
      exact hlower 7 3 (by decide)
  have hkept (v : Value) : applyInOrder "x" (f.constraints.filter Constraint.isTransform) v =
      .ok v := by
    rw [hconstraints]
    rfl
  refine ⟨shape, f, s, hshape, hf, hs, ⟨hadmits _ (hlower 4 3 (by decide)), fun haccepted => ?_⟩,
    hadmits _ (hlower 7 3 (by decide)), ?_⟩
  · have hclamp : ∀ c ∈ f.constraints, c.isClamp = false := by
      rw [hconstraints]
      decide
    have hexact := (accepts_of_admits hshape hf htype hs ⟨.int 4, rfl⟩ (hkept (.int 4))).2 hclamp
    have hreplaced : Replaced f.constraints (.minimum, .int 5) := by
      rw [hconstraints]
      exact ⟨[], [(.minimum, .int 3)], rfl, List.mem_cons_self⟩
    obtain ⟨n, hn, hless⟩ := (hexact.mp haccepted).2 _ hreplaced
    cases hn
    exact absurd hless (by decide)
  · refine (accepts_of_admits hshape hf htype hs ⟨.int 7, rfl⟩ (hkept (.int 7))).1 ⟨?_, hseven⟩
    exact hadmits _ (hlower 7 3 (by decide))

end Classes

end HttpContract
