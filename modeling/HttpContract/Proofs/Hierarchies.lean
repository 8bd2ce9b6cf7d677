import HttpContract.Proofs.Declarations
import HttpContract.Proofs.Settling
import HttpContract.Proofs.Tables

/-!
# Hierarchies and their variants

What a declared hierarchy promises: its variants have names and classes of their own, and none of
them has a field that clients know by the discriminator's name. A variant with one marked ancestor
finds the hierarchy it belongs to.
-/

namespace HttpContract

/-- Variants of a base that stand side by side: each by the name of its own class, no name twice,
and none with a field of the discriminator's name. -/
structure Hierarchy.VariantsDeclared (C : Classes) (base discriminator : String)
    (variants : Table String String) : Prop where
  names : ∀ v ∈ variants, v.1 = C.wireNameOf v.2
  distinct : variants.Distinct
  subclasses : ∀ v ∈ variants, v.2 ∈ C.subclasses base
  apart : ∀ v ∈ variants, ∃ shape, C.shape v.2 = .ok shape ∧
    ∀ f ∈ shape.fields, f.wireName ≠ discriminator

/-- Before the first variant is added nothing is declared. -/
theorem Hierarchy.VariantsDeclared.empty {C : Classes} {base discriminator : String} :
    VariantsDeclared C base discriminator [] := by
  refine ⟨by simp, ?_, by simp, by simp⟩
  exact List.nodup_nil

namespace Classes

variable {C : Classes} {base discriminator : String} {variants after : Table String String}

/-- A variant that is added keeps the others in front, under the name of its own class. -/
theorem addVariant_eq_ok {className : String}
    (h : C.addVariant base discriminator variants className = .ok after) :
    after = variants ++ [(C.wireNameOf className, className)] ∧
      Table.get? (C.wireNameOf className) variants = none ∧
      ∃ shape, C.shape className = .ok shape ∧ ∀ f ∈ shape.fields, f.wireName ≠ discriminator := by
  unfold addVariant at h
  split at h
  · cases h
  · dsimp only at h
    split at h
    · cases h
    · rename_i hnone
      obtain ⟨shape, hshape, h⟩ := bind_eq_ok_iff.mp h
      split at h
      · cases h
      · rename_i hfields
        cases h
        refine ⟨rfl, hnone, shape, hshape, fun f hf heq => hfields ?_⟩
        exact List.any_eq_true.mpr ⟨f, hf, by simpa using heq⟩

/-- Adding variants one after the other keeps them declared. -/
theorem variantsDeclared_foldlM {candidates : List String} (hbelow : candidates ⊆ C.subclasses base)
    (hvariants : Hierarchy.VariantsDeclared C base discriminator variants)
    (h : candidates.foldlM (C.addVariant base discriminator) variants = .ok after) :
    Hierarchy.VariantsDeclared C base discriminator after := by
  induction candidates generalizing variants with
  | nil =>
    cases h
    exact hvariants
  | cons className rest ih =>
    obtain ⟨between, hadd, h⟩ := bind_eq_ok_iff.mp h
    obtain ⟨rfl, hnew, hshape⟩ := addVariant_eq_ok hadd
    rw [Table.get?_eq_none_iff] at hnew
    refine ih (fun name hname => hbelow (List.mem_cons_of_mem _ hname)) ⟨?_, ?_, ?_, ?_⟩ h
    · intro v hv
      rcases List.mem_append.mp hv with hv | hv
      · exact hvariants.names v hv
      · rw [List.mem_singleton.mp hv]
    · rw [Table.Distinct, Table.keys, List.map_append]
      refine List.nodup_append.mpr ⟨hvariants.distinct, List.nodup_singleton _, ?_⟩
      rintro _ ha _ hb rfl
      rw [List.map_singleton, List.mem_singleton] at hb
      subst hb
      exact hnew ha
    · intro v hv
      rcases List.mem_append.mp hv with hv | hv
      · exact hvariants.subclasses v hv
      · rw [List.mem_singleton.mp hv]
        exact hbelow List.mem_cons_self
    · intro v hv
      rcases List.mem_append.mp hv with hv | hv
      · exact hvariants.apart v hv
      · rw [List.mem_singleton.mp hv]
        exact hshape

/-- A hierarchy that a base has at present has declared variants. -/
theorem variantsDeclared_of_presentHierarchy {h : Hierarchy}
    (hpresent : C.presentHierarchy base = .ok h) :
    h.base = base ∧ Hierarchy.VariantsDeclared C base h.discriminator h.variants := by
  obtain ⟨hbase, _, hvariants⟩ := presentHierarchy_eq_ok hpresent
  exact ⟨hbase, variantsDeclared_foldlM (fun _ hname => hname) .empty hvariants⟩

/-- Where everything settled is up to date, a hierarchy has declared variants. -/
theorem Current.variantsDeclared (hcurrent : C.Current) {h : Hierarchy}
    (hh : C.hierarchy base = .ok h) :
    Hierarchy.VariantsDeclared C base h.discriminator h.variants :=
  (variantsDeclared_of_presentHierarchy (hcurrent.hierarchy_eq base ▸ hh)).2

/-- A base with a hierarchy is marked. -/
theorem Current.isPolymorphic (hcurrent : C.Current) {h : Hierarchy}
    (hh : C.hierarchy base = .ok h) : C.isPolymorphic base = true := by
  have hpresent := hcurrent.hierarchy_eq base ▸ hh
  rw [Classes.isPolymorphic, (presentHierarchy_eq_ok hpresent).2.1]
  rfl

/-- Every marked base has a hierarchy. -/
def HierarchiesDeclared (C : Classes) : Prop :=
  ∀ base, C.isPolymorphic base = true → ∃ h, C.hierarchy base = .ok h

end Classes

/-- The name of a class stands in front of it among the variants. -/
theorem Hierarchy.mem_of_nameOf? {h : Hierarchy} {tag className : String}
    (hname : h.nameOf? className = some tag) : (tag, className) ∈ h.variants := by
  obtain ⟨v, hv, rfl⟩ := Option.map_eq_some_iff.mp hname
  have hclass : v.2 = className := by simpa using List.find?_some hv
  exact hclass ▸ List.mem_of_find?_eq_some hv

namespace Hierarchy.VariantsDeclared

variable {C : Classes} {base discriminator : String} {h : Hierarchy}

/-- The name of a variant leads to its class. -/
theorem variant?_eq (hvariants : VariantsDeclared C base discriminator h.variants)
    {tag className : String} (hv : (tag, className) ∈ h.variants) :
    h.variant? tag = some className :=
  Table.get?_of_mem hvariants.distinct hv

/-- The class of a variant leads to its name. -/
theorem nameOf?_eq (hvariants : VariantsDeclared C base discriminator h.variants)
    {tag className : String} (hv : (tag, className) ∈ h.variants) :
    h.nameOf? className = some tag := by
  have hsome : (h.variants.find? (·.2 = className)).isSome = true := by
    rw [List.find?_isSome]
    exact ⟨_, hv, by simp⟩
  obtain ⟨v, hfound⟩ := Option.isSome_iff_exists.mp hsome
  have hclass : v.2 = className := by simpa using List.find?_some hfound
  have hname := hvariants.names v (List.mem_of_find?_eq_some hfound)
  rw [Hierarchy.nameOf?, hfound, Option.map_some, hname, hclass, ← hvariants.names _ hv]

end Hierarchy.VariantsDeclared

namespace Classes

variable {C : Classes} {base className : String} {h : Hierarchy}

/-- A class that is found by its name is the one described under it. -/
theorem WellFormed.find?_eq (hC : C.WellFormed) {entry : ClassEntry} (hentry : entry ∈ C.entries) :
    C.find? entry.definition.name = some entry :=
  find?_of_nodup hC.names hentry

/-- A base is among the proper ancestors of the classes that name it. -/
theorem WellFormed.mem_tail_ancestry (hC : C.WellFormed) (hsub : className ∈ C.subclasses base) :
    base ∈ (C.ancestry className).tail := by
  obtain ⟨entry, hentry, rfl⟩ := List.mem_map.mp hsub
  rw [List.mem_filter] at hentry
  rw [ancestry, hC.find?_eq hentry.1]
  exact hC.bases entry hentry.1 (by simpa using hentry.2)

/-- Looking through ancestors of which one base alone is marked gives the hierarchy of this base. -/
theorem parentAmong_eq_some {ancestors : List String} (hbase : base ∈ ancestors)
    (honly : ∀ a ∈ ancestors, C.isPolymorphic a = true → a = base)
    (hmarked : C.isPolymorphic base = true) (hh : C.hierarchy base = .ok h)
    (hname : (h.nameOf? className).isSome = true) :
    C.parentAmong className ancestors = .ok (some h) := by
  induction ancestors with
  | nil => cases hbase
  | cons a rest ih =>
    rw [parentAmong]
    by_cases ha : C.isPolymorphic a = true
    · rw [honly a List.mem_cons_self ha, if_pos hmarked, hh]
      simp [hname]
    · rw [if_neg ha]
      rcases List.mem_cons.mp hbase with rfl | hbase
      · exact absurd hmarked ha
      · exact ih hbase fun other hother => honly other (List.mem_cons_of_mem _ hother)

/-- A variant whose only marked ancestor is its base belongs to the hierarchy of this base. -/
theorem parent_of_variant (hC : C.WellFormed) (hcurrent : C.Current) {tag : String}
    (hh : C.hierarchy base = .ok h) (hv : (tag, className) ∈ h.variants)
    (honly : ∀ a ∈ (C.ancestry className).tail, C.isPolymorphic a = true → a = base) :
    C.parent className = .ok (some h) := by
  have hvariants := hcurrent.variantsDeclared hh
  refine parentAmong_eq_some ?_ honly (hcurrent.isPolymorphic hh) hh ?_
  · exact hC.mem_tail_ancestry (hvariants.subclasses _ hv)
  · rw [hvariants.nameOf?_eq hv]
    rfl

/-- A parent that is found is a hierarchy that has the class among its variants. -/
theorem exists_hierarchy_of_parent (hparent : C.parent className = .ok (some h)) :
    (h.nameOf? className).isSome = true ∧ ∃ base, C.hierarchy base = .ok h := by
  unfold parent at hparent
  generalize (C.ancestry className).tail = ancestors at hparent
  induction ancestors with
  | nil => cases hparent
  | cons a rest ih =>
    rw [parentAmong] at hparent
    split at hparent
    · split at hparent
      · cases hparent
      · rename_i found hfound
        split at hparent
        · rename_i hname
          cases hparent
          exact ⟨hname, a, hfound⟩
        · exact ih hparent
    · exact ih hparent

/-- Where all hierarchies are declared the look-up of a parent succeeds. -/
theorem exists_parent (hdeclared : C.HierarchiesDeclared) (className : String) :
    ∃ parent, C.parent className = .ok parent := by
  unfold parent
  induction (C.ancestry className).tail with
  | nil => exact ⟨none, rfl⟩
  | cons a rest ih =>
    rw [parentAmong]
    by_cases ha : C.isPolymorphic a = true
    · obtain ⟨h, hh⟩ := hdeclared a ha
      rw [if_pos ha, hh]
      by_cases hname : (h.nameOf? className).isSome = true
      · exact ⟨some h, by simp [hname]⟩
      · simpa [hname] using ih
    · rwa [if_neg ha]

/-- No field of a class has the name of the discriminator that the class is written with. -/
theorem wireName_ne_discriminator (hcurrent : C.Current) {shape : Shape}
    (hh : C.hierarchy base = .ok h) (hname : (h.nameOf? className).isSome = true)
    (hshape : C.shape className = .ok shape) {f : Field} (hf : f ∈ shape.fields) :
    f.wireName ≠ h.discriminator := by
  have hvariants := hcurrent.variantsDeclared hh
  obtain ⟨tag, hfound⟩ := Option.isSome_iff_exists.mp hname
  obtain ⟨other, hother, hapart⟩ := hvariants.apart _ (Hierarchy.mem_of_nameOf? hfound)
  rw [hshape] at hother
  cases hother
  exact hapart f hf

/-- Settling hierarchies leaves a table well formed. -/
theorem WellFormed.settle (hC : C.WellFormed) (bases : List String) :
    (C.settle bases).WellFormed := by
  have heq := C.entries_settle bases
  exact ⟨heq ▸ hC.names, heq ▸ hC.first, heq ▸ hC.bases, heq ▸ hC.fields⟩

/-- A described table stays well formed when hierarchies are settled. -/
theorem Described.wellFormed_settle (hC : C.Described) (bases : List String) :
    (C.settle bases).WellFormed :=
  hC.wellFormed.settle bases

/-- What is settled after all classes were described is up to date. -/
theorem Described.current_settle (hC : C.Described) (bases : List String) :
    (C.settle bases).Current := by
  refine Current.settle (fun h hh => ?_) bases
  rw [hC.settled_eq] at hh
  cases hh

/-- The tables that come from describing classes and settling hierarchies in any order. -/
inductive Live : Classes → Prop
  | empty : Live {}
  | define {C : Classes} {definition : ClassDef} (hC : Live C)
      (hnew : C.isKnown definition.name = false)
      (hbases : definition.bases ⊆ C.ancestryOf definition.bases) : Live (C.define definition)
  | settle {C : Classes} (hC : Live C) (bases : List String) : Live (C.settle bases)

/-- A live table is well formed. -/
theorem Live.wellFormed (hC : C.Live) : C.WellFormed := by
  induction hC with
  | empty => exact wellFormed_empty
  | define _ hnew hbases ih => exact ih.define hnew hbases
  | settle _ bases ih => exact ih.settle bases

/-- Variants that are classes of a table, each by the name of its class. -/
def Names (C : Classes) (h : Hierarchy) : Prop :=
  ∀ v ∈ h.variants, C.isKnown v.2 = true ∧ v.1 = C.wireNameOf v.2

/-- A table names the variants of its present hierarchies. -/
theorem names_of_presentHierarchy (hpresent : C.presentHierarchy base = .ok h) : C.Names h := by
  obtain ⟨_, hvariants⟩ := variantsDeclared_of_presentHierarchy hpresent
  intro v hv
  refine ⟨?_, hvariants.names v hv⟩
  obtain ⟨entry, hentry, hname⟩ := List.mem_map.mp (hvariants.subclasses v hv)
  rw [isKnown, find?, List.find?_isSome]
  exact ⟨entry, (List.mem_filter.mp hentry).1, by simpa using hname⟩

/-- Classes of the same entries name the same variants. -/
theorem Names.ofEntries {D : Classes} (heq : D.entries = C.entries) (hh : C.Names h) :
    D.Names h := by
  unfold Names isKnown wireNameOf find? at hh ⊢
  rwa [heq]

/-- One more class changes nothing about the names of variants. -/
theorem Names.define (hh : C.Names h) (definition : ClassDef) : (C.define definition).Names h := by
  intro v hv
  obtain ⟨hknown, hname⟩ := hh v hv
  obtain ⟨entry, hentry⟩ := Option.isSome_iff_exists.mp hknown
  have hsame : (C.define definition).find? v.2 = some entry := by
    unfold find? at hentry ⊢
    rw [Classes.define, List.find?_append, hentry]
    rfl
  rw [isKnown, wireNameOf, hsame]
  rw [wireNameOf, hentry] at hname
  exact ⟨rfl, hname⟩

/-- All settled hierarchies of a live table name their variants. -/
theorem Live.names_settled (hC : C.Live) : ∀ h ∈ C.settled, C.Names h := by
  induction hC with
  | empty => simp
  | define _ _ _ ih => exact fun h hh => (ih h hh).define _
  | @settle C _ bases ih =>
    intro h hh
    refine Names.ofEntries (C.entries_settle bases) ?_
    rcases mem_settled_of_settle hh with hbefore | hpresent
    · exact ih h hbefore
    · exact names_of_presentHierarchy hpresent

/-- Every hierarchy of a live table names its variants. -/
theorem Live.names_hierarchy (hC : C.Live) (hh : C.hierarchy base = .ok h) : C.Names h := by
  unfold hierarchy at hh
  split at hh
  · rename_i found hfound
    cases hh
    exact hC.names_settled _ (List.mem_of_find?_eq_some hfound)
  · exact names_of_presentHierarchy hh

/-- A table knows the bases of its present hierarchies. -/
theorem isKnown_of_presentHierarchy (hpresent : C.presentHierarchy base = .ok h) :
    C.isKnown base = true := by
  obtain ⟨_, hmarked, _⟩ := presentHierarchy_eq_ok hpresent
  rw [discriminator?] at hmarked
  obtain ⟨entry, hentry, _⟩ := Option.bind_eq_some_iff.mp hmarked
  rw [isKnown, hentry]
  rfl

/-- All settled hierarchies of a live table are those of its classes. -/
theorem Live.isKnown_settled (hC : C.Live) : ∀ h ∈ C.settled, C.isKnown h.base = true := by
  induction hC with
  | empty => simp
  | @define C definition _ _ _ ih =>
    intro h hh
    obtain ⟨entry, hentry⟩ := Option.isSome_iff_exists.mp (ih h hh)
    rw [find?] at hentry
    rw [isKnown, find?, Classes.define, List.find?_append, hentry]
    rfl
  | @settle C _ bases ih =>
    intro h hh
    have hknown : C.isKnown h.base = true := by
      rcases mem_settled_of_settle hh with hbefore | hpresent
      · exact ih h hbefore
      · exact isKnown_of_presentHierarchy hpresent
    rw [isKnown, find?] at hknown ⊢
    rwa [C.entries_settle bases]

/-- Every hierarchy of a live table is that of one of its classes. -/
theorem Live.isKnown_of_hierarchy (hC : C.Live) (hh : C.hierarchy base = .ok h) :
    C.isKnown base = true := by
  unfold hierarchy at hh
  split at hh
  · rename_i found hfound
    have hbase : found.base = base := by simpa using List.find?_some hfound
    exact hbase ▸ hC.isKnown_settled found (List.mem_of_find?_eq_some hfound)
  · exact isKnown_of_presentHierarchy hh

end Classes

end HttpContract
