import HttpContract.Proofs.Records
import HttpContract.Proofs.Schema.Meeting

/-!
# What hints resolve to

The form at the heart of a resolved type is the one that its class has, and null is allowed only by
a union. Since the types of a shape's fields are resolved, the same holds of everything that is met
from them.
-/

namespace HttpContract

/-- Whether a form is the one that its class has. -/
def Leaf.IsOwn (C : Classes) (form : Leaf) : Prop :=
  form.isNamed = true → C.leaf? form.label = some form

/-- Whether a hint is a union or has notes around it. -/
def Hint.isLayered : Hint → Bool
  | .union .. | .annotated .. => true
  | _ => false

namespace Classes

variable {C : Classes}

/-- The form of a class has the name of the class. -/
theorem label_of_leaf? {name : String} {form : Leaf} (h : C.leaf? name = some form) :
    form.label = name := by
  unfold leaf? at h
  split at h
  · cases h
    rfl
  · split at h
    · cases h
      rfl
    · split at h
      · cases h
        rfl
      · cases h

/-- A record is known. -/
theorem isKnown_of_isRecord {name : String} (h : C.isRecord name = true) :
    C.isKnown name = true := by
  rw [isKnown]
  cases hfound : C.find? name with
  | some entry => rfl
  | none =>
    rw [isRecord, hasBody, ancestry, hfound] at h
    simp [hfound] at h

/-- A class that has a form is known. -/
theorem isKnown_of_leaf? {name : String} {form : Leaf}
    (h : C.leaf? name = some form) : C.isKnown name = true := by
  by_contra hunknown
  have hfound : C.find? name = none := by simpa [isKnown] using hunknown
  have henumeration : C.isEnumeration name = false := by
    rw [isEnumeration, enumeration?, hfound]
    rfl
  have hpolymorphic : C.isPolymorphic name = false := by
    rw [isPolymorphic, discriminator?, hfound]
    rfl
  have hrecord : C.isRecord name = false := by
    simpa using fun hrecord => hunknown (isKnown_of_isRecord hrecord)
  simp [leaf?, henumeration, hpolymorphic, hrecord] at h

/-- A type without a class at its heart has an own form. -/
theorem isOwn_of_isNamed {form : Leaf} (h : form.isNamed = false) : form.IsOwn C := by
  intro hnamed
  rw [h] at hnamed
  cases hnamed

mutual

/-- A resolved type has at its heart the form of a class, and allows null as it was told to unless a
union stands at its hint or below its notes. -/
theorem resolveWithin_eq_ok {outer nullable : Bool} {before after : List Note} {hint : Hint}
    {type : TypeInfo} (h : C.resolveWithin outer nullable before after hint = .ok type) :
    type.core.IsOwn C ∧ (hint.isLayered = false → type.nullable = nullable) := by
  cases hint with
  | annotated base notes =>
    rw [resolveWithin] at h
    exact ⟨(resolveWithin_eq_ok h).1, fun hlayered => by cases hlayered⟩
  | union bars members =>
    refine ⟨?_, fun hlayered => by cases hlayered⟩
    rw [resolveWithin] at h
    split at h
    · dsimp only at h
      split at h
      · exact resolveOnly_eq_ok h
      · cases h
    · cases h
  | collection container item =>
    rw [resolveWithin] at h
    obtain ⟨inner, hinner, rfl⟩ := map_eq_ok_iff.mp h
    exact ⟨(resolveWithin_eq_ok hinner).1, fun _ => rfl⟩
  | mapping container key value =>
    unfold resolveWithin at h
    split at h
    · obtain ⟨inner, hinner, rfl⟩ := map_eq_ok_iff.mp h
      exact ⟨(resolveWithin_eq_ok hinner).1, fun _ => rfl⟩
    · cases h
  | named name =>
    rw [resolveWithin] at h
    split at h
    · rename_i form hform
      cases h
      refine ⟨fun _ => ?_, fun _ => rfl⟩
      rwa [TypeInfo.core, label_of_leaf? hform]
    · cases h
  | builtin builtin =>
    rw [resolveWithin] at h
    split at h
    · cases h
      exact ⟨isOwn_of_isNamed rfl, fun _ => rfl⟩
    · cases h
  | any | bareMapping container =>
    cases h
    exact ⟨isOwn_of_isNamed rfl, fun _ => rfl⟩
  | bareCollection container =>
    cases container with
    | tuple => cases h
    | list | set | frozenset | sequence | abstractSet =>
      cases h
      exact ⟨isOwn_of_isNamed rfl, fun _ => rfl⟩
  | fixedTuple items | none | noneType | forward name => cases h
termination_by structural hint

/-- The only member of a union has at its heart the form of a class. -/
theorem resolveOnly_eq_ok {nullable : Bool} {before : List Note} {members : List Hint}
    {type : TypeInfo} (h : C.resolveOnly nullable before members = .ok type) :
    type.core.IsOwn C := by
  cases members with
  | nil => cases h
  | cons member rest =>
    cases member with
    | noneType =>
      rw [resolveOnly] at h
      exact resolveOnly_eq_ok h
    | any | builtin type | none | named name | bareCollection type | bareMapping type
    | fixedTuple items | forward name | collection type item | mapping type key value
    | union bars members | annotated base notes =>
      simp only [resolveOnly] at h
      exact (resolveWithin_eq_ok h).1
termination_by structural members

end

/-- The type of a shape's field is a resolved one. -/
theorem exists_resolve {className : String} {shape : Shape} (h : C.shape className = .ok shape)
    {f : Field} (hf : f ∈ shape.fields) : ∃ hint notes, C.resolve hint notes = .ok f.type := by
  cases hmodel : C.isModel className with
  | true =>
    obtain ⟨spec, _, hmade⟩ := exists_modelField hmodel h hf
    obtain ⟨notes, htype⟩ := (modelField_eq_ok hmade).2.1
    exact ⟨_, notes, htype⟩
  | false =>
    obtain ⟨spec, _, _, hmade⟩ := exists_recordField hmodel h hf
    exact ⟨_, [], (recordField_eq_ok hmade).2.1⟩

/-- The forms of a shape's fields are those that their classes have. -/
theorem isOwn_of_mem {className : String} {shape : Shape} (h : C.shape className = .ok shape)
    {f : Field} (hf : f ∈ shape.fields) : f.type.core.IsOwn C := by
  obtain ⟨hint, notes, htype⟩ := exists_resolve h hf
  exact (resolveWithin_eq_ok htype).1

/-- Below the forms of the classes are the forms of their fields' classes, and variants. -/
theorem isOwn_or_record_of_below {form inside : Leaf} (hinside : inside ∈ C.below form) :
    inside.IsOwn C ∨ ∃ base h tag className, form = .polymorphic base ∧
      C.hierarchy base = .ok h ∧ (tag, className) ∈ h.variants ∧ inside = .record className := by
  cases form with
  | record name =>
    rw [Classes.below] at hinside
    split at hinside
    · rename_i shape hshape
      obtain ⟨f, hf, rfl⟩ := List.mem_map.mp hinside
      exact Or.inl (isOwn_of_mem hshape hf)
    · cases hinside
  | polymorphic base =>
    rw [Classes.below] at hinside
    split at hinside
    · rename_i h hh
      obtain ⟨v, hv, rfl⟩ := List.mem_map.mp hinside
      exact Or.inr ⟨base, h, v.1, v.2, rfl, hh, hv, rfl⟩
    · cases hinside
  | enumeration name | scalar type | any => cases hinside

/-- What is met from forms of classes are forms of classes and variants. -/
theorem Meets.isOwn_or_record {seen : List String} {forms new : List Leaf}
    (h : Meets C seen forms new)
    (hforms : ∀ form ∈ forms, form.IsOwn C ∨ ∃ name, form = .record name) :
    ∀ form ∈ new, form.IsOwn C ∨ ∃ name, form = .record name := by
  refine h.forall_of_below (fun form _ inside hinside => ?_) hforms
  rcases isOwn_or_record_of_below hinside with hown | ⟨_, _, _, className, _, _, _, hrecord⟩
  · exact Or.inl hown
  · exact Or.inr ⟨className, hrecord⟩

end Classes

end HttpContract
