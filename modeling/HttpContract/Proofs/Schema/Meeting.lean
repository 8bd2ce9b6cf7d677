import Mathlib.Logic.Relation
import HttpContract.Shape

/-!
# The order in which classes are met

A type has one form at its heart, and the body of a named form leads to further forms: those of its
fields, or of its variants. Walking along them depth first, and entering no class twice, meets the
classes in a definite order. `Meets` states this order without a builder or a registry.
-/

namespace HttpContract

/-- The form at the heart of a type, below arrays and maps. -/
def TypeInfo.core : TypeInfo → Leaf
  | .leaf form _ _ => form
  | .array _ item _ _ | .map item _ _ => item.core

/-- Whether a form is a class, whose label is then the name of the class. -/
def Leaf.isNamed : Leaf → Bool
  | .enumeration _ | .record _ | .polymorphic _ => true
  | .scalar _ | .any => false

namespace Classes

/-- The forms that the body of a form leads to: those of the fields of a record, and the variants of
a base. -/
def below (C : Classes) : Leaf → List Leaf
  | .record name =>
    match C.shape name with
    | .ok shape => shape.fields.map (·.type.core)
    | .error _ => []
  | .polymorphic base =>
    match C.hierarchy base with
    | .ok h => h.variants.map fun (_, className) => .record className
    | .error _ => []
  | .enumeration _ | .scalar _ | .any => []

/-- Walking along forms one after the other, when the classes `seen` were met before, meets the
forms `new` for the first time, in this order. Entering a class comes before everything that its
body leads to. -/
inductive Meets (C : Classes) : List String → List Leaf → List Leaf → Prop
  | nil {seen : List String} : Meets C seen [] []
  | plain {seen : List String} {form : Leaf} {rest new : List Leaf}
      (hform : form.isNamed = false) (hrest : Meets C seen rest new) :
      Meets C seen (form :: rest) new
  | known {seen : List String} {form : Leaf} {rest new : List Leaf}
      (hform : form.isNamed = true) (hseen : form.label ∈ seen) (hrest : Meets C seen rest new) :
      Meets C seen (form :: rest) new
  | enter {seen : List String} {form : Leaf} {rest inner after : List Leaf}
      (hform : form.isNamed = true) (hseen : form.label ∉ seen)
      (hinner : Meets C (seen ++ [form.label]) (C.below form) inner)
      (hrest : Meets C (seen ++ (form :: inner).map Leaf.label) rest after) :
      Meets C seen (form :: rest) (form :: inner ++ after)

namespace Meets

variable {C : Classes} {seen : List String} {forms new : List Leaf}

/-- Walking along two lists of forms is walking along the first and then along the second. -/
theorem append {more later : List Leaf} (h : Meets C seen forms new)
    (hmore : Meets C (seen ++ new.map Leaf.label) more later) :
    Meets C seen (forms ++ more) (new ++ later) := by
  induction h with
  | nil => simpa using hmore
  | plain hform _ ih => exact .plain hform (ih hmore)
  | known hform hseen _ ih => exact .known hform hseen (ih hmore)
  | @enter seen form rest inner after hform hseen hinner _ _ ih =>
    rw [List.cons_append, List.append_assoc]
    refine .enter hform hseen hinner (ih ?_)
    rwa [List.append_assoc, ← List.map_append]

/-- A single form whose class was met before meets nothing. -/
theorem ofKnown {form : Leaf} (hform : form.isNamed = true) (hseen : form.label ∈ seen) :
    Meets C seen [form] [] :=
  .known hform hseen .nil

/-- A single form whose class is new meets itself and what its body leads to. -/
theorem ofEntered {form : Leaf} {inner : List Leaf} (hform : form.isNamed = true)
    (hseen : form.label ∉ seen) (hinner : Meets C (seen ++ [form.label]) (C.below form) inner) :
    Meets C seen [form] (form :: inner) := by
  simpa using Meets.enter hform hseen hinner .nil

/-- Walking along forms meets the same forms in the same order every time. -/
theorem unique (h : Meets C seen forms new) {other : List Leaf}
    (hother : Meets C seen forms other) : new = other := by
  induction h generalizing other with
  | nil =>
    cases hother
    rfl
  | plain hform _ ih =>
    cases hother with
    | plain _ hrest => exact ih hrest
    | known hnamed _ _ | enter hnamed _ _ _ =>
      rw [hform] at hnamed
      cases hnamed
  | known hform hseen _ ih =>
    cases hother with
    | plain hplain _ =>
      rw [hform] at hplain
      cases hplain
    | known _ _ hrest => exact ih hrest
    | enter _ hnew _ _ => exact absurd hseen hnew
  | enter hform hseen _ _ ihinner ihrest =>
    cases hother with
    | plain hplain _ =>
      rw [hform] at hplain
      cases hplain
    | known _ hknown _ => exact absurd hknown hseen
    | enter _ _ hinner hrest =>
      obtain rfl := ihinner hinner
      obtain rfl := ihrest hrest
      rfl

/-- No class is met twice, and none that was met before. -/
theorem nodup (h : Meets C seen forms new) (hseen : seen.Nodup) :
    (seen ++ new.map Leaf.label).Nodup := by
  induction h with
  | nil => simpa using hseen
  | plain _ _ ih => exact ih hseen
  | known _ _ _ ih => exact ih hseen
  | @enter seen form rest inner after _ hnew _ _ ihinner ihrest =>
    have hentered : (seen ++ [form.label]).Nodup := by
      rw [List.nodup_append]
      refine ⟨hseen, by simp, ?_⟩
      rintro a ha b hb rfl
      rw [List.mem_singleton] at hb
      exact hnew (hb ▸ ha)
    have hinner := ihinner hentered
    rw [List.append_assoc, List.singleton_append, ← List.map_cons] at hinner
    have hrest := ihrest hinner
    rwa [List.append_assoc, ← List.map_append] at hrest

/-- Only classes are met. -/
theorem isNamed (h : Meets C seen forms new) : ∀ form ∈ new, form.isNamed = true := by
  induction h with
  | nil => simp
  | plain _ _ ih | known _ _ _ ih => exact ih
  | @enter seen form rest inner after hform _ _ _ ihinner ihrest =>
    intro other hother
    rw [List.cons_append, List.mem_cons, List.mem_append] at hother
    rcases hother with rfl | hother | hother
    · exact hform
    · exact ihinner other hother
    · exact ihrest other hother

/-- Every class among the forms is met, now or before. -/
theorem label_mem (h : Meets C seen forms new) {form : Leaf} (hmem : form ∈ forms)
    (hform : form.isNamed = true) : form.label ∈ seen ++ new.map Leaf.label := by
  induction h with
  | nil => cases hmem
  | plain hplain _ ih =>
    rcases List.mem_cons.mp hmem with rfl | hmem
    · rw [hplain] at hform
      cases hform
    · exact ih hmem
  | known _ hseen _ ih =>
    rcases List.mem_cons.mp hmem with rfl | hmem
    · exact List.mem_append_left _ hseen
    · exact ih hmem
  | @enter seen form' rest inner after _ _ _ _ _ ih =>
    rcases List.mem_cons.mp hmem with rfl | hmem
    · simp
    · have := ih hmem
      rwa [List.append_assoc, ← List.map_append] at this

/-- Every class that the body of a met form leads to is met, now or before. -/
theorem below_mem (h : Meets C seen forms new) {form inside : Leaf} (hmem : form ∈ new)
    (hinside : inside ∈ C.below form) (hnamed : inside.isNamed = true) :
    inside.label ∈ seen ++ new.map Leaf.label := by
  induction h with
  | nil => cases hmem
  | plain _ _ ih => exact ih hmem
  | known _ _ _ ih => exact ih hmem
  | @enter seen form' rest inner after hform hseen hinner hrest ihinner ihrest =>
    have hkept : ∀ c ∈ seen ++ [form'.label] ++ inner.map Leaf.label,
        c ∈ seen ++ (form' :: inner ++ after).map Leaf.label := by
      intro c hc
      simp only [List.mem_append, List.mem_cons, List.not_mem_nil, or_false, List.cons_append,
        List.map_cons, List.map_append] at hc ⊢
      rcases hc with (hc | hc) | hc
      · exact Or.inl hc
      · exact Or.inr (Or.inl hc)
      · exact Or.inr (Or.inr (Or.inl hc))
    rw [List.cons_append, List.mem_cons, List.mem_append] at hmem
    rcases hmem with rfl | hmem | hmem
    · exact hkept _ (hinner.label_mem hinside hnamed)
    · exact hkept _ (ihinner hmem)
    · have := ihrest hmem
      rwa [List.append_assoc, ← List.map_append] at this

/-- What holds of the forms walked along, and below every form of which it holds, holds of all forms
that are met. -/
theorem forall_of_below (h : Meets C seen forms new) {P : Leaf → Prop}
    (hbelow : ∀ form, P form → ∀ inside ∈ C.below form, P inside)
    (hforms : ∀ form ∈ forms, P form) : ∀ form ∈ new, P form := by
  induction h with
  | nil => simp
  | plain _ _ ih | known _ _ _ ih =>
    exact ih fun form hform => hforms form (List.mem_cons_of_mem _ hform)
  | @enter seen form rest inner after _ _ _ _ ihinner ihrest =>
    intro other hother
    rw [List.cons_append, List.mem_cons, List.mem_append] at hother
    rcases hother with rfl | hother | hother
    · exact hforms other List.mem_cons_self
    · exact ihinner (hbelow form (hforms form List.mem_cons_self)) other hother
    · exact ihrest (fun next hnext => hforms next (List.mem_cons_of_mem _ hnext)) other hother

end Meets

/-- The body of one of the met forms leads from one class to another. -/
def Leads (C : Classes) (met : List Leaf) (a b : String) : Prop :=
  ∃ form ∈ met, form.label = a ∧ ∃ inside ∈ C.below form, inside.isNamed = true ∧ inside.label = b

/-- More forms lead at least as far. -/
theorem Leads.mono {C : Classes} {met more : List Leaf} (hsub : met ⊆ more) {a b : String}
    (h : C.Leads met a b) : C.Leads more a b := by
  obtain ⟨form, hmem, hrest⟩ := h
  exact ⟨form, hsub hmem, hrest⟩

/-- Every form that is met for the first time is led to from one of the forms walked along. -/
theorem Meets.led {C : Classes} {seen : List String} {forms new : List Leaf}
    (h : Meets C seen forms new) {form : Leaf} (hmem : form ∈ new) :
    ∃ root ∈ forms, root.isNamed = true ∧
      Relation.ReflTransGen (C.Leads new) root.label form.label := by
  induction h with
  | nil => cases hmem
  | plain _ _ ih =>
    obtain ⟨root, hroot, hrest⟩ := ih hmem
    exact ⟨root, List.mem_cons_of_mem _ hroot, hrest⟩
  | known _ _ _ ih =>
    obtain ⟨root, hroot, hrest⟩ := ih hmem
    exact ⟨root, List.mem_cons_of_mem _ hroot, hrest⟩
  | @enter seen form' rest inner after hform _ _ _ ihinner ihrest =>
    have hsubInner : inner ⊆ form' :: inner ++ after := fun f hf => by simp [hf]
    have hsubAfter : after ⊆ form' :: inner ++ after := fun f hf => by simp [hf]
    rw [List.cons_append, List.mem_cons, List.mem_append] at hmem
    rcases hmem with rfl | hmem | hmem
    · exact ⟨form, List.mem_cons_self, hform, .refl⟩
    · obtain ⟨root, hroot, hnamed, hpath⟩ := ihinner hmem
      have hpath := Relation.ReflTransGen.mono (fun _ _ => Leads.mono hsubInner) _ _ hpath
      refine ⟨form', List.mem_cons_self, hform, .head ?_ hpath⟩
      exact ⟨form', by simp, rfl, root, hroot, hnamed, rfl⟩
    · obtain ⟨root, hroot, hnamed, hpath⟩ := ihrest hmem
      have hpath := Relation.ReflTransGen.mono (fun _ _ => Leads.mono hsubAfter) _ _ hpath
      exact ⟨root, List.mem_cons_of_mem _ hroot, hnamed, hpath⟩

end Classes

end HttpContract
