import HttpContract.Shape
import HttpContract.Proofs.Outcome
import Mathlib.Data.List.Nodup

/-!
# Described classes and their declarations

What every table of classes keeps when one more class is described: each class has a name of its
own, comes after its bases in the order of look-up, and no two of its fields share a name. On such a
table a declared hierarchy names its variants uniquely, and a variant finds its base again.
-/

namespace HttpContract

namespace Classes

/-- What holds of a table of classes however it was described. -/
structure WellFormed (C : Classes) : Prop where
  /-- No two classes have one name. -/
  names : (C.entries.map (·.definition.name)).Nodup
  /-- A class is its own first ancestor. -/
  first : ∀ entry ∈ C.entries, entry.ancestry.head? = some entry.definition.name
  /-- The bases of a class are among its other ancestors. -/
  bases : ∀ entry ∈ C.entries, entry.definition.bases ⊆ entry.ancestry.tail
  /-- No two fields of a class have one name. -/
  fields : ∀ entry ∈ C.entries, (entry.fields.map (·.name)).Nodup

/-- A table without classes is well formed. -/
theorem wellFormed_empty : ({} : Classes).WellFormed :=
  ⟨List.nodup_nil, by simp, by simp, by simp⟩

/-- The fields of a class that is looked up have names of their own. -/
theorem WellFormed.nodup_fieldsOf {C : Classes} (h : C.WellFormed) (name : String) :
    ((C.fieldsOf name).map (·.name)).Nodup := by
  unfold fieldsOf
  cases hfound : C.find? name with
  | none => exact List.nodup_nil
  | some entry => exact h.fields entry (List.mem_of_find?_eq_some hfound)

/-- Setting a field keeps the names as they are, or adds the new one at the end. -/
theorem names_setField (field : FieldSpec) (fields : List FieldSpec) :
    (setField field fields).map (·.name) =
      if field.name ∈ fields.map (·.name) then fields.map (·.name)
      else fields.map (·.name) ++ [field.name] := by
  induction fields with
  | nil => simp [setField]
  | cons f rest ih =>
    by_cases h : f.name = field.name
    · simp [setField, h]
    · by_cases hm : field.name ∈ rest.map (·.name) <;>
        simp [setField, h, Ne.symm h, ih, hm]

/-- Setting fields keeps names distinct. -/
theorem nodup_setFields (new : List FieldSpec) {fields : List FieldSpec}
    (h : (fields.map (·.name)).Nodup) : ((setFields new fields).map (·.name)).Nodup := by
  unfold setFields
  induction new generalizing fields with
  | nil => exact h
  | cons field rest ih =>
    refine ih ?_
    rw [names_setField]
    split
    · exact h
    · rename_i hm
      exact List.nodup_append.mpr ⟨h, List.nodup_singleton _, by
        rintro a ha b hb rfl
        exact hm (List.mem_singleton.mp hb ▸ ha)⟩

/-- The fields of a record have names of their own. -/
theorem nodup_recordFields (C : Classes) (ancestors : List String) (own : List FieldSpec) :
    ((C.recordFields ancestors own).map (·.name)).Nodup := by
  refine nodup_setFields _ ?_
  have hfold : ∀ (names : List String) {fields : List FieldSpec}, (fields.map (·.name)).Nodup →
      ((names.foldl (fun fields name => setFields (C.fieldsOf name) fields) fields).map
        (·.name)).Nodup := by
    intro names
    induction names with
    | nil => exact fun h => h
    | cons name rest ih => exact fun h => ih (nodup_setFields _ h)
  exact hfold _ List.nodup_nil

/-- Repeated names are dropped for good. -/
theorem nodup_eraseDups (names : List String) : names.eraseDups.Nodup := by
  induction hlength : names.length using Nat.strongRecOn generalizing names with
  | _ n ih =>
    cases names with
    | nil => simp
    | cons name rest =>
      rw [List.eraseDups_cons, List.nodup_cons]
      have hshorter := List.length_filter_le (fun other => !other == name) rest
      refine ⟨fun hm => ?_, ih _ ?_ _ rfl⟩
      · rw [List.mem_eraseDups, List.mem_filter] at hm
        simp at hm
      · rw [List.length_cons] at hlength
        omega

/-- Fields found by distinct names have distinct names. -/
theorem nodup_filterMap_found {names : List String} (hnames : names.Nodup)
    {found : String → Option FieldSpec} (hfound : ∀ name f, found name = some f → f.name = name) :
    ((names.filterMap found).map (·.name)).Nodup := by
  refine List.Nodup.sublist ?_ hnames
  clear hnames
  induction names with
  | nil => exact List.Sublist.refl _
  | cons name rest ih =>
    rw [List.filterMap_cons]
    split
    · exact ih.cons _
    · rename_i f hf
      rw [List.map_cons, hfound name f hf]
      exact ih.cons_cons _

/-- The fields of a model have names of their own. -/
theorem nodup_modelFields (C : Classes) (ancestors bases : List String) (own : List FieldSpec) :
    ((C.modelFields ancestors bases own).map (·.name)).Nodup := by
  refine nodup_filterMap_found (nodup_eraseDups _) fun name f hf => ?_
  rw [Option.orElse_eq_orElse, Option.orElse_eq_or, Option.or_eq_some_iff] at hf
  rcases hf with hf | ⟨_, hf⟩
  · simpa using List.find?_some hf
  · obtain ⟨base, _, hf⟩ := List.exists_of_findSome?_eq_some hf
    simpa using List.find?_some hf

/-- A class with a new name, whose bases take part in its order of look-up, leaves a table well
formed. -/
theorem WellFormed.define {C : Classes} (h : C.WellFormed) {definition : ClassDef}
    (hnew : C.isKnown definition.name = false)
    (hbases : definition.bases ⊆ C.ancestryOf definition.bases) :
    (C.define definition).WellFormed := by
  have hfields : ∀ entry ∈ (C.define definition).entries, (entry.fields.map (·.name)).Nodup := by
    intro entry hentry
    rcases List.mem_append.mp hentry with hentry | hentry
    · exact h.fields entry hentry
    · rw [List.mem_singleton] at hentry
      subst hentry
      dsimp only
      split
      · exact nodup_recordFields C _ _
      · exact nodup_modelFields C _ _ _
      · split
        · exact nodup_modelFields C _ _ _
        · cases List.find? _ (C.ancestryOf definition.bases) with
          | none => exact List.nodup_nil
          | some name => exact h.nodup_fieldsOf name
      · exact List.nodup_nil
  refine ⟨?_, ?_, ?_, hfields⟩
  · have hnew : definition.name ∉ C.entries.map (·.definition.name) := by
      intro hmem
      obtain ⟨entry, hentry, hname⟩ := List.mem_map.mp hmem
      rw [isKnown, find?, Option.isSome_eq_false_iff, Option.isNone_iff_eq_none,
        List.find?_eq_none] at hnew
      exact hnew entry hentry (by simpa using hname)
    rw [show (C.define definition).entries.map (·.definition.name) =
      C.entries.map (·.definition.name) ++ [definition.name] by simp [Classes.define]]
    exact List.nodup_append.mpr ⟨h.names, List.nodup_singleton _, by
      rintro a ha b hb rfl
      exact hnew (List.mem_singleton.mp hb ▸ ha)⟩
  · intro entry hentry
    rcases List.mem_append.mp hentry with hentry | hentry
    · exact h.first entry hentry
    · rw [List.mem_singleton] at hentry
      subst hentry
      rfl
  · intro entry hentry
    rcases List.mem_append.mp hentry with hentry | hentry
    · exact h.bases entry hentry
    · rw [List.mem_singleton] at hentry
      subst hentry
      exact hbases

/-- The tables that come from describing classes one after the other, each under a new name and
with its bases in its order of look-up. -/
inductive Described : Classes → Prop
  | empty : Described {}
  | define {C : Classes} {definition : ClassDef} (hC : Described C)
      (hnew : C.isKnown definition.name = false)
      (hbases : definition.bases ⊆ C.ancestryOf definition.bases) : Described (C.define definition)

/-- A described table is well formed. -/
theorem Described.wellFormed {C : Classes} (h : C.Described) : C.WellFormed := by
  induction h with
  | empty => exact wellFormed_empty
  | define _ hnew hbases ih => exact ih.define hnew hbases

/-- Describing classes settles nothing. -/
theorem Described.settled_eq {C : Classes} (h : C.Described) : C.settled = [] := by
  induction h with
  | empty => rfl
  | define _ _ _ ih => exact ih

end Classes

end HttpContract
