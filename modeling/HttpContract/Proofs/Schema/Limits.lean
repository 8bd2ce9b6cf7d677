import HttpContract.Proofs.Nulls
import HttpContract.Proofs.Schema.Histories

/-!
# Where limits come from

Every limit that a schema shows was set by a constraint on the type of a field, or on something
inside it. Decorations move limits but make none, and neither does the builder: its finished schemas
show what constraints of the described classes set, whatever calls there were.
-/

namespace HttpContract

namespace Constraint

/-- Whether a constraint sets an attribute to a value. -/
def Sets (c : Constraint) (limit : Json) : Prop := ∃ key, (key, limit) ∈ c.attributes

/-- The numbers that a constraint holds values against. -/
def bounds : Constraint → List Number
  | .min bound _ | .max bound _ => [bound]
  | .clamp low high => [low, high]
  | _ => []

/-- A value that holds null is set for a bound that is not finite. -/
theorem exists_bound_of_sets {c : Constraint} {limit : Json} (h : c.Sets limit)
    (hnull : limit.HoldsNull) :
    ∃ bound ∈ c.bounds, bound.isFinite = false ∧ limit = .number bound := by
  have hbounds : ∀ p ∈ c.attributes, p.2.HoldsNull →
      ∃ bound ∈ c.bounds, bound.isFinite = false ∧ p.2 = .number bound := by
    cases c <;> simp +contextual [attributes, bounds]
  obtain ⟨key, hkey⟩ := h
  exact hbounds (key, limit) hkey hnull

end Constraint

/-- What stands among the attributes that constraints set is set by one of them. -/
theorem sets_of_mem_schemaAttributes {constraints : List Constraint}
    {p : ConstraintAttribute × Json} (h : p ∈ schemaAttributes constraints) :
    ∃ c ∈ constraints, c.Sets p.2 := by
  obtain h | h := Table.mem_of_mem_bindings h
  · cases h
  · obtain ⟨c, hc, hp⟩ := List.mem_flatMap.mp h
    exact ⟨c, hc, p.1, hp⟩

namespace TypeInfo

/-- The constraints on a type and on what is inside it. -/
def innerConstraints : TypeInfo → List Constraint
  | .leaf _ _ notes => constraintsIn notes
  | .array _ item _ notes | .map item _ notes => constraintsIn notes ++ item.innerConstraints

/-- Whether a type has limits with a property only, those inside it included. -/
def Limited (P : Json → Prop) (type : TypeInfo) : Prop :=
  ∀ c ∈ type.innerConstraints, ∀ limit, c.Sets limit → P limit

end TypeInfo

namespace Schema

variable {P : Json → Prop} {s : Schema}

/-- Whether a schema has limits with a property only, those of all schemas within included. -/
def Limited (P : Json → Prop) (s : Schema) : Prop := ∀ n ∈ s.nodes, ∀ p ∈ n.limits, P p.2

/-- The limits within a schema are its own and those of the schemas below. -/
theorem limited_iff : s.Limited P ↔ (∀ p ∈ s.limits, P p.2) ∧ ∀ c ∈ s.children, c.Limited P :=
  s.forall_nodes_iff

/-- A schema without limits of its own has those of the schemas below. -/
theorem limited_of_children (hs : s.limits = []) (hchildren : ∀ c ∈ s.children, c.Limited P) :
    s.Limited P := by
  rw [limited_iff, hs]
  exact ⟨fun _ hp => (nomatch hp), hchildren⟩

/-- A schema that is shown stands below. -/
theorem mem_children_of_shown {c : Schema} (hc : c ∈ s.shownChildren) : c ∈ s.children := by
  have hfields : ((s.properties.getD []).filter (Json.isStructural ·.1)).map (·.2) ⊆
      (s.properties.getD []).map (·.2) := List.map_subset _ (List.filter_subset_self _)
  simp only [shownChildren, children, List.mem_append] at hc ⊢
  tauto

/-- What a schema shows is one of the limits within. -/
theorem Limited.of_shows (h : s.Limited P) {limit : Json} (hshows : s.Shows limit) : P limit := by
  induction hshows with
  | own hlimit => exact (limited_iff.mp h).1 _ (Table.mem_of_get? hlimit)
  | child hc _ ih => exact ih ((limited_iff.mp h).2 _ (mem_children_of_shown hc))

/-- Laying something on top adds its limits only. -/
theorem Limited.decorate (h : s.Limited P) {d : Decoration} (hd : ∀ p ∈ d.limits, P p.2) :
    (s.decorate d).Limited P := by
  have hwith {t : Schema} (ht : t.Limited P) : (t.withDecoration d).Limited P := by
    rw [limited_iff] at ht ⊢
    refine ⟨fun p hp => ?_, ht.2⟩
    obtain hp | hp := Table.mem_of_mem_bindings hp
    · exact ht.1 p hp
    · exact hd p hp
  unfold Schema.decorate
  split
  · exact h
  · split
    · refine hwith (limited_of_children rfl fun c hc => ?_)
      have hc : c = s := by simpa [children] using hc
      exact hc ▸ h
    · exact hwith h

end Schema

variable {P : Json → Prop}

/-- A type around a schema adds its own limits only. -/
theorem TypeInfo.limited_dress {type : TypeInfo} (htype : type.Limited P) {s : Schema}
    (hs : s.Limited P) : (type.dress s).Limited P := by
  have hset {constraints : List Constraint}
      (h : ∀ c ∈ constraints, ∀ limit, c.Sets limit → P limit) :
      ∀ p ∈ schemaAttributes constraints, P p.2 := by
    intro p hp
    obtain ⟨c, hc, hsets⟩ := sets_of_mem_schemaAttributes hp
    exact h c hc p.2 hsets
  induction type with
  | leaf form nullable notes => exact hs.decorate (hset htype)
  | array container item nullable notes ih =>
    obtain ⟨hown, hitem⟩ := List.forall_mem_append.mp htype
    refine (Schema.limited_of_children rfl fun c hc => ?_).decorate (fun _ hp => (nomatch hp))
    have hc : c = (item.dress s).decorate { limits := schemaAttributes (constraintsIn notes) } := by
      simpa [Schema.children] using hc
    exact hc ▸ (ih hitem).decorate (hset hown)
  | map item nullable notes ih =>
    obtain ⟨hown, hitem⟩ := List.forall_mem_append.mp htype
    refine (Schema.limited_of_children rfl fun c hc => ?_).decorate (hset hown)
    have hc : c = item.dress s := by simpa [Schema.children] using hc
    exact hc ▸ ih hitem

namespace Classes

variable {C : Classes}

/-- Whether the fields of all described classes have limits with a property only. -/
def Limited (P : Json → Prop) (C : Classes) : Prop :=
  ∀ name shape, C.shape name = .ok shape → ∀ f ∈ shape.fields, f.type.Limited P

/-- A form has no limits. -/
theorem limited_plainSchema (C : Classes) (form : Leaf) : (C.plainSchema form).Limited P := by
  cases form with
  | scalar s =>
    apply Schema.limited_of_children
    · cases s <;> rfl
    · intro c hc
      cases s <;> cases hc
  | any | enumeration name | record name | polymorphic name =>
    exact Schema.limited_of_children rfl fun c hc => by cases hc

/-- The schema of a type has the limits of the type. -/
theorem limited_schemaOf {type : TypeInfo} (htype : type.Limited P) : (C.schemaOf type).Limited P :=
  TypeInfo.limited_dress htype (C.limited_plainSchema _)

/-- A property has the limits of its field's type. -/
theorem limited_propertyOf {f : Field} (hf : f.type.Limited P) {s : Schema}
    (h : C.propertyOf f = .ok s) : s.Limited P := by
  rcases propertyOf_cases h with rfl | ⟨default, rfl⟩
  · exact limited_schemaOf hf
  · exact (limited_schemaOf hf).decorate fun _ hp => (nomatch hp)

/-- The body of a class has the limits of its fields. -/
theorem limited_bodyOf (hC : C.Limited P) {form : Leaf} {s : Schema} (h : C.bodyOf form = .ok s) :
    s.Limited P := by
  obtain ⟨_, _, hlimits, hparts⟩ := bodyOf_eq_ok h
  refine Schema.limited_of_children hlimits fun c hc => ?_
  cases hparts c hc with
  | property hshape hf hs => exact limited_propertyOf (hC _ _ hshape _ hf) hs
  | form form => exact C.limited_plainSchema form
  | values values => exact Schema.limited_of_children rfl fun c hc => (nomatch hc)

end Classes

namespace SchemaBuilder

variable {C : Classes}

/-- A sound builder whose finished schemas have limits with a property only. -/
structure Limited (P : Json → Prop) (b : SchemaBuilder) : Prop extends Sound b where
  finished : ∀ entry ∈ b.registry.entries, ∀ schema, entry.schema = some schema → schema.Limited P

/-- A reference that is given out finishes no schema. -/
theorem Limited.refer {b : SchemaBuilder} (h : b.Limited P) {className : String} {isNew : Bool}
    {registry : SchemaRegistry} (hnew : className ∉ b.referenced)
    (hreserve : b.registry.reserve (C.schemaNameOf className) className = .ok (isNew, registry)) :
    (b.referring registry className).Limited P := by
  obtain ⟨hsound, _, _, hentries⟩ := h.toSound.refer hnew hreserve
  refine ⟨hsound, fun entry hentry schema hschema => ?_⟩
  rw [referring, hentries] at hentry
  obtain hentry | hentry := List.mem_append.mp hentry
  · exact h.finished entry hentry schema hschema
  · rw [List.mem_singleton.mp hentry] at hschema
    cases hschema

/-- A builder may finish a schema with limits that it may have. -/
theorem Limited.complete {b : SchemaBuilder} (h : b.Limited P) (name : String) {schema : Schema}
    (hschema : schema.Limited P) : (b.completing name schema).Limited P := by
  refine ⟨h.toSound.complete name schema, fun entry hentry other hother => ?_⟩
  obtain ⟨before, hbefore, rfl⟩ := List.mem_map.mp hentry
  split at hother
  · cases hother
    exact hschema
  · exact h.finished before hbefore other hother

/-- The look-up of bases finishes no schema. -/
theorem composable_limited (P : Json → Prop) : Composable fun _ m => Keeps (Limited P) m :=
  composable_keeps fun _ _ h => ⟨⟨h.owners, h.names⟩, h.finished⟩

/-- The references to forms finish schemas with limits of the described classes only. -/
theorem keeps_limited_leafSchema (hC : C.Limited P) (depth : Nat) (form : Leaf) :
    Keeps (Limited P) (leafSchema C depth form) := by
  refine keeps_leafSchema (composable_limited P) (fun form body _ hbody hmakes => ?_) depth form
  refine keeps_named (fun b isNew registry hnew hreserve hb => hb.refer hnew hreserve) hbody ?_
  intro b finish registry schema hnew hreserve hb hrun hfinish
  -- The body that is made is the one that the class has, whatever the builder held before.
  have hschema := (hmakes (hb.refer hnew hreserve).toSound hrun).1
  exact hfinish.complete _ (Classes.limited_bodyOf hC hschema)

/-- The schema of a hint has the limits of the type that it resolves to. -/
theorem gives_ofHint (hC : C.Limited P) {hint : Hint}
    (hhint : ∀ type, C.resolve hint [] = .ok type → type.Limited P) :
    Gives (Limited P) (Schema.Limited P) (ofHint C hint) := by
  refine ⟨?_, fun hb hrun => ?_⟩
  · exact (composable_limited P).ofHint (keeps_limited_leafSchema hC (greatestDepth C)) hint
  · obtain ⟨⟨type, htype, rfl⟩, _⟩ := Makes.ofHint hint hb.toSound hrun
    exact Classes.limited_schemaOf (hhint type htype)

/-- The schema of a field has the limits of its type. -/
theorem gives_ofField (hC : C.Limited P) {f : Field} (hf : f.type.Limited P) :
    Gives (Limited P) (Schema.Limited P) (ofField C f) := by
  refine ⟨?_, fun hb hrun => ?_⟩
  · exact (composable_limited P).fieldSchema (keeps_limited_leafSchema hC (greatestDepth C)) f
  · exact Classes.limited_propertyOf hf (Makes.ofField f hb.toSound hrun).1

end SchemaBuilder

namespace Parameter

open SchemaBuilder

variable {C : Classes}

/-- The parameter of a bound field has the limits of the field's type. -/
theorem gives_ofBound (hC : C.Limited P) {bound : BoundField ParameterParser}
    (hbound : bound.field.type.Limited P) :
    Gives (Limited P) (fun p => p.schema.Limited P) (ofBound C bound) := by
  have hparts := composable_limited P
  have hfield := gives_ofField hC hbound
  unfold ofBound
  dsimp only
  split
  · exact (hparts.pure none).gives.bind fun _ _ => hfield.bind fun _ hs => .pure hs
  · refine (hparts.ask _).gives.bind fun _ _ => (hparts.require _).gives.bind fun json _ => ?_
    exact (hparts.pure (some json)).gives.bind fun _ _ => hfield.bind fun _ hs => .pure hs

/-- The parameters of bound fields have the limits of the fields' types. -/
theorem gives_ofEach (hC : C.Limited P) {bounds : List (BoundField ParameterParser)}
    (hbounds : ∀ bound ∈ bounds, bound.field.type.Limited P) :
    Gives (Limited P) (fun params => ∀ p ∈ params, p.schema.Limited P) (ofEach C bounds) := by
  induction bounds with
  | nil => exact .pure (by simp)
  | cons bound rest ih =>
    obtain ⟨hbound, hrest⟩ := List.forall_mem_cons.mp hbounds
    exact (gives_ofBound hC hbound).bind fun p hp => (ih hrest).bind fun others hothers =>
      .pure (List.forall_mem_cons.mpr ⟨hp, hothers⟩)

end Parameter

end HttpContract
