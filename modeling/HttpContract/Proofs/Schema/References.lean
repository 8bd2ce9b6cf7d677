import HttpContract.Schema.Basic

/-!
# References within schemas

A schema is a tree of schema objects. This file lists its nodes and the names they point to, and
shows that decorating a schema moves no reference: a reference that is given attributes is wrapped,
so that every reference stands alone.
-/

namespace HttpContract

namespace Schema

mutual

/-- All schema objects within a schema, itself first. -/
def nodes (s : Schema) : List Schema :=
  match s with
  | ⟨_, _, _, _, _, _, _, items, _, properties, _, additionalProperties, allOf, oneOf, _⟩ =>
    s ::
      ((match items with
        | some item => item.nodes
        | none => []) ++
      (match properties with
        | some fields => memberNodes fields
        | none => []) ++
      (match additionalProperties with
        | some value => value.nodes
        | none => []) ++
      listNodes allOf ++ listNodes oneOf)
termination_by structural s

/-- All schema objects within the schemas of properties. -/
def memberNodes : List (String × Schema) → List Schema
  | [] => []
  | (_, s) :: rest => s.nodes ++ memberNodes rest
termination_by structural fields => fields

/-- All schema objects within several schemas. -/
def listNodes : List Schema → List Schema
  | [] => []
  | s :: rest => s.nodes ++ listNodes rest
termination_by structural schemas => schemas

end

/-- The schema objects directly below a schema. -/
def children (s : Schema) : List Schema :=
  s.items.toList ++ (s.properties.getD []).map (·.2) ++ s.additionalProperties.toList ++
    s.allOf ++ s.oneOf

/-- The names that a schema object itself points to, by reference or by discriminator. -/
def ownTargets (s : Schema) : List String :=
  s.reference.toList ++ ((s.discriminator.map (·.mapping)).getD []).map (·.2)

/-- The names that a schema points to anywhere. -/
def targets (s : Schema) : List String := s.nodes.flatMap ownTargets

/-- Every reference within a schema stands alone. -/
def BareReferences (s : Schema) : Prop :=
  ∀ n ∈ s.nodes, ∀ name, n.reference = some name → n = ofReference name

/-- Whether a schema object is nothing but a reference if it is one at all, and wraps nothing but a
reference if it wraps anything. -/
structure StandsApart (n : Schema) : Prop where
  bare : ∀ name, n.reference = some name → n = ofReference name
  wraps : n.allOf = [] ∨ ∃ name, n.allOf = [ofReference name]

/-- Whether the references within a schema stand apart from everything else. -/
def Apart (s : Schema) : Prop := ∀ n ∈ s.nodes, n.StandsApart

/-- The nodes within several schemas are those of each of them. -/
theorem listNodes_eq (schemas : List Schema) : listNodes schemas = schemas.flatMap nodes := by
  induction schemas with
  | nil => rfl
  | cons s rest ih => rw [listNodes, ih, List.flatMap_cons]

/-- The nodes within properties are those of each of their schemas. -/
theorem memberNodes_eq (fields : List (String × Schema)) :
    memberNodes fields = (fields.map (·.2)).flatMap nodes := by
  induction fields with
  | nil => rfl
  | cons field rest ih =>
    obtain ⟨name, s⟩ := field
    rw [memberNodes, ih, List.map_cons, List.flatMap_cons]

/-- The nodes of a schema are the schema itself and the nodes of its children. -/
theorem nodes_eq (s : Schema) : s.nodes = s :: s.children.flatMap nodes := by
  obtain ⟨_, _, _, _, _, _, _, items, _, properties, _, additional, allOf, oneOf, _⟩ := s
  cases items <;> cases properties <;> cases additional <;>
    simp [nodes, children, listNodes_eq, memberNodes_eq]

/-- The targets of a schema are its own and those of its children. -/
theorem targets_eq (s : Schema) : s.targets = s.ownTargets ++ s.children.flatMap targets := by
  rw [targets, nodes_eq, List.flatMap_cons, List.flatMap_assoc]
  rfl

/-- Something holds of all schema objects within a schema when it holds of the schema itself and of
all within its children. -/
theorem forall_nodes_iff {P : Schema → Prop} (s : Schema) :
    (∀ n ∈ s.nodes, P n) ↔ P s ∧ ∀ c ∈ s.children, ∀ n ∈ c.nodes, P n := by
  rw [nodes_eq, List.forall_mem_cons]
  simp only [List.mem_flatMap]
  exact and_congr_right fun _ => ⟨fun h c hc n hn => h n ⟨c, hc, hn⟩,
    fun h n ⟨c, hc, hn⟩ => h c hc n hn⟩

/-- References stand alone when the schema itself does as far as it is one, and when those of all
children do. -/
theorem bareReferences_iff (s : Schema) :
    s.BareReferences ↔ (∀ name, s.reference = some name → s = ofReference name) ∧
      ∀ c ∈ s.children, c.BareReferences :=
  s.forall_nodes_iff

/-- References stand apart within a schema when they do at the schema itself and below it. -/
theorem apart_iff (s : Schema) : s.Apart ↔ s.StandsApart ∧ ∀ c ∈ s.children, c.Apart :=
  s.forall_nodes_iff

/-- References that stand apart are alone. -/
theorem Apart.bareReferences {s : Schema} (hs : s.Apart) : s.BareReferences :=
  fun n hn => (hs n hn).bare

/-- A reference points to its name. -/
@[simp] theorem targets_ofReference (name : String) : (ofReference name).targets = [name] := by
  rw [targets_eq]
  rfl

/-- Nothing stands beside a reference that is alone. -/
theorem apart_ofReference (name : String) : (ofReference name).Apart := by
  refine (apart_iff _).mpr ⟨⟨?_, Or.inl rfl⟩, fun c hc => (nomatch hc)⟩
  rintro other ⟨⟩
  rfl

/-- Decorating a schema changes nothing about what it points to. -/
@[simp] theorem targets_decorate (s : Schema) (d : Decoration) :
    (s.decorate d).targets = s.targets := by
  unfold decorate
  split
  · rfl
  · split
    · rw [targets_eq]
      simp [ownTargets, children, withDecoration]
    · rw [targets_eq, targets_eq s]
      rfl

/-- Decorating a schema leaves references apart: a bare one is wrapped, and one that is wrapped
already stays as it is. -/
theorem Apart.decorate {s : Schema} (hs : s.Apart) (d : Decoration) : (s.decorate d).Apart := by
  obtain ⟨hself, hchildren⟩ := (apart_iff s).mp hs
  unfold Schema.decorate
  split
  · exact hs
  · split
    · rename_i hreference
      obtain ⟨name, hname⟩ := Option.isSome_iff_exists.mp hreference
      have hbare := hself.bare name hname
      refine (apart_iff _).mpr ⟨⟨fun other hother => (nomatch hother), Or.inr ⟨name, ?_⟩⟩, ?_⟩
      · rw [hbare]
        rfl
      · intro c hc
        have hc : c = s := by simpa [children, withDecoration] using hc
        exact hc ▸ hs
    · rename_i hreference
      refine (apart_iff _).mpr ⟨⟨fun name hname => ?_, hself.wraps⟩, hchildren⟩
      rw [withDecoration] at hname
      rw [hname] at hreference
      exact absurd rfl hreference

/-- In a schema object that neither is a reference nor wraps one, references stand apart when they
do below. -/
theorem apart_of_children {s : Schema} (hreference : s.reference = none) (hallOf : s.allOf = [])
    (hchildren : ∀ c ∈ s.children, c.Apart) : s.Apart := by
  refine (apart_iff s).mpr ⟨⟨fun name hname => ?_, Or.inl hallOf⟩, hchildren⟩
  rw [hreference] at hname
  cases hname

end Schema

end HttpContract
