import HttpContract.Proofs.Schema.Building
import HttpContract.Proofs.Tables

/-!
# The components of a document

Whatever calls are made on a fresh schema builder, when all of them end well the registry is closed
and exact: every name pointed to has a finished schema, every schema is reached from a returned one,
and the classes that were met have one entry each, in the order of meeting.
-/

namespace HttpContract

/-- A call on a schema builder: the schema of a hint is asked for, or that of a field. -/
inductive BuildCall where
  | hint (hint : Hint)
  | field (f : Field)

namespace BuildCall

/-- What a call does. -/
def perform (C : Classes) : BuildCall → BuildSchema Schema
  | .hint h => SchemaBuilder.ofHint C h
  | .field f => SchemaBuilder.ofField C f

/-- What several calls do, one after the other. -/
def performAll (C : Classes) : List BuildCall → BuildSchema (List Schema)
  | [] => pure []
  | call :: rest => do
    let s ← call.perform C
    return s :: (← performAll C rest)

/-- The form at the heart of the type that a call is about, if its hint resolves. -/
def form? (C : Classes) : BuildCall → Option Leaf
  | .hint h => (C.resolve h []).toOption.map TypeInfo.core
  | .field f => some f.type.core

/-- The forms that calls walk along. -/
def forms (C : Classes) (calls : List BuildCall) : List Leaf := calls.filterMap (·.form? C)

end BuildCall

namespace SchemaRegistry

/-- The names reached from schemas by following references and discriminators. -/
inductive Reaches (r : SchemaRegistry) (roots : List Schema) : String → Prop
  | root {s : Schema} {name : String} (hroot : s ∈ roots) (hname : name ∈ s.targets) :
      Reaches r roots name
  | step {name next : String} {s : Schema} (hname : Reaches r roots name)
      (hschema : r.schema? name = some s) (hnext : next ∈ s.targets) : Reaches r roots next

/-- What a registry holds after walking along forms with the given schemas as results. -/
structure ClosedAndExact (C : Classes) (forms : List Leaf) (returned : List Schema)
    (r : SchemaRegistry) : Prop where
  /-- Whatever is pointed to has a finished schema. -/
  closed : ∀ s, s ∈ returned ∨ s ∈ r.schemas.map (·.2) → ∀ name ∈ s.targets,
    ∃ body, r.schema? name = some body
  /-- Every entry is reached from a returned schema. -/
  reached : ∀ entry ∈ r.entries, r.Reaches returned entry.name
  /-- The entries are those of the classes met, in the order of meeting. -/
  inOrder : ∃ met, C.Meets [] forms met ∧ r.entries.map (·.owner) = met.map Leaf.label
  /-- No class has two entries. -/
  ownersDistinct : (r.entries.map (·.owner)).Nodup
  /-- No two entries share a name. -/
  namesDistinct : (r.entries.map (·.name)).Nodup
  /-- References to one class are equal wherever they stand. -/
  sameReference : ∀ s t, s ∈ returned ∨ s ∈ r.schemas.map (·.2) →
    t ∈ returned ∨ t ∈ r.schemas.map (·.2) → ∀ m ∈ s.nodes, ∀ n ∈ t.nodes,
      ∀ e ∈ r.entries, ∀ f ∈ r.entries, m.reference = some e.name → n.reference = some f.name →
        e.owner = f.owner → m = n

/-- An entry is found by its name when no other one has it. -/
theorem find?_eq_some {r : SchemaRegistry} (hnames : (r.entries.map (·.name)).Nodup)
    {entry : SchemaEntry} (hentry : entry ∈ r.entries) : r.find? entry.name = some entry :=
  find?_of_nodup hnames hentry

/-- The schema of an entry is found by the entry's name. -/
theorem schema?_eq_some {r : SchemaRegistry} (hnames : (r.entries.map (·.name)).Nodup)
    {entry : SchemaEntry} (hentry : entry ∈ r.entries) : r.schema? entry.name = entry.schema := by
  rw [schema?, find?_eq_some hnames hentry]
  rfl

/-- The registered schemas are those of the entries that have one. -/
theorem mem_schemas_iff {r : SchemaRegistry} {s : Schema} :
    s ∈ r.schemas.map (·.2) ↔ ∃ entry ∈ r.entries, entry.schema = some s := by
  simp only [schemas, List.mem_map, List.mem_filterMap, Option.map_eq_some_iff]
  constructor
  · rintro ⟨_, ⟨entry, hentry, _, hs, rfl⟩, rfl⟩
    exact ⟨entry, hentry, hs⟩
  · rintro ⟨entry, hentry, hs⟩
    exact ⟨_, ⟨entry, hentry, s, hs, rfl⟩, rfl⟩

end SchemaRegistry

namespace BuildCall

variable {C : Classes}

/-- The schema that a call is due to give. -/
def Gives (C : Classes) (call : BuildCall) (s : Schema) : Prop :=
  s.BareReferences ∧ ∃ form, call.form? C = some form ∧ s.targets = C.schemaNames [form]

/-- A call walks along the form that it is about. -/
theorem makes_perform (call : BuildCall) :
    SchemaBuilder.Makes C (call.perform C) (call.form? C).toList (call.Gives C) := by
  cases call with
  | hint h =>
    refine (SchemaBuilder.Makes.ofHint h).imp ?_
    rintro s ⟨type, htype, rfl⟩
    have hform : (hint h).form? C = some type.core := by
      rw [form?, htype]
      rfl
    exact ⟨C.bareReferences_schemaOf type, type.core, hform, C.targets_schemaOf type⟩
  | field f =>
    refine (SchemaBuilder.Makes.ofField f).imp fun s hs => ?_
    exact ⟨Classes.bareReferences_propertyOf hs, f.type.core, rfl, Classes.targets_propertyOf hs⟩

/-- Calls that all end well walk along the forms that they are about, one after the other. -/
theorem makes_performAll (calls : List BuildCall) :
    SchemaBuilder.Makes C (performAll C calls) (forms C calls) fun schemas =>
      (∀ s ∈ schemas, ∃ call ∈ calls, call.Gives C s) ∧
        ∀ call ∈ calls, ∃ s ∈ schemas, call.Gives C s := by
  induction calls with
  | nil => exact .pure (by simp)
  | cons call rest ih =>
    have hforms : forms C (call :: rest) = (call.form? C).toList ++ forms C rest := by
      cases hform : call.form? C <;> simp [forms, hform]
    rw [hforms]
    refine (makes_perform call).bind (forms C rest) fun s hs =>
      ih.bindLast fun others hothers => .pure ⟨?_, ?_⟩
    · intro t ht
      rcases List.mem_cons.mp ht with rfl | ht
      · exact ⟨call, List.mem_cons_self, hs⟩
      · obtain ⟨other, hother, hgives⟩ := hothers.1 t ht
        exact ⟨other, List.mem_cons_of_mem _ hother, hgives⟩
    · intro other hother
      rcases List.mem_cons.mp hother with rfl | hother
      · exact ⟨s, List.mem_cons_self, hs⟩
      · obtain ⟨t, ht, hgives⟩ := hothers.2 other hother
        exact ⟨t, List.mem_cons_of_mem _ ht, hgives⟩

end BuildCall

namespace SchemaRegistry

variable {C : Classes} {forms met : List Leaf} {returned : List Schema} {r : SchemaRegistry}

/-- The finished entries of the classes that were met. -/
structure Holds (C : Classes) (met : List Leaf) (r : SchemaRegistry) : Prop where
  entries : r.entries = met.map C.finishedEntry
  finished : ∀ form ∈ met, ∃ s, C.bodyOf form = .ok s
  names : (r.entries.map (·.name)).Nodup

namespace Holds

/-- A class that was met is found under its name with its body. -/
theorem schema?_eq (h : Holds C met r) {form : Leaf} (hform : form ∈ met) {s : Schema}
    (hs : C.bodyOf form = .ok s) : r.schema? (C.schemaNameOf form.label) = some s := by
  have hentry : C.finishedEntry form ∈ r.entries := by
    rw [h.entries]
    exact List.mem_map_of_mem hform
  rw [show C.schemaNameOf form.label = (C.finishedEntry form).name from rfl,
    schema?_eq_some h.names hentry, Classes.finishedEntry, hs]
  rfl

/-- The registered schemas are the bodies of the classes that were met. -/
theorem mem_schemas (h : Holds C met r) {s : Schema} (hs : s ∈ r.schemas.map (·.2)) :
    ∃ form ∈ met, C.bodyOf form = .ok s := by
  obtain ⟨entry, hentry, hs⟩ := mem_schemas_iff.mp hs
  rw [h.entries, List.mem_map] at hentry
  obtain ⟨form, hform, rfl⟩ := hentry
  obtain ⟨body, hbody⟩ := h.finished form hform
  rw [Classes.finishedEntry, hbody] at hs
  cases hs
  exact ⟨form, hform, hbody⟩

/-- The name of a class whose label was met has a finished schema. -/
theorem exists_schema (h : Holds C met r) {form : Leaf}
    (hlabel : form.label ∈ met.map Leaf.label) :
    ∃ body, r.schema? (C.schemaNameOf form.label) = some body := by
  obtain ⟨first, hfirst, heq⟩ := List.mem_map.mp hlabel
  obtain ⟨body, hbody⟩ := h.finished first hfirst
  exact ⟨body, heq ▸ h.schema?_eq hfirst hbody⟩

/-- Where bodies lead from one class to another, references do. -/
theorem reaches_of_leads (h : Holds C met r) {a c : String}
    (hpath : Relation.ReflTransGen (C.Leads met) a c)
    (hstart : r.Reaches returned (C.schemaNameOf a)) : r.Reaches returned (C.schemaNameOf c) := by
  induction hpath with
  | refl => exact hstart
  | tail _ hlead ih =>
    obtain ⟨form, hform, rfl, inside, hinside, hnamed, rfl⟩ := hlead
    obtain ⟨body, hbody⟩ := h.finished form hform
    refine ih.step (h.schema?_eq hform hbody) ((Classes.mem_targets_bodyOf hbody).mpr ?_)
    exact Classes.mem_schemaNames_iff.mpr ⟨inside, hinside, hnamed, rfl⟩

end Holds

end SchemaRegistry

/-- After calls on a fresh builder that all end well, the registry holds the classes met. -/
theorem BuildCall.holds_performAll {C : Classes} {calls : List BuildCall} {returned : List Schema}
    {b : SchemaBuilder} (hrun : (performAll C calls).run {} = .ok returned b) :
    ∃ met, C.Meets [] (forms C calls) met ∧ b.registry.Holds C met ∧
      b.registry.entries.map (·.owner) = met.map Leaf.label := by
  have hsound : ({} : SchemaBuilder).Sound := ⟨rfl, List.nodup_nil⟩
  obtain ⟨_, hafter, met, hmeets, hgrows⟩ := makes_performAll calls hsound hrun
  refine ⟨met, hmeets, ⟨by simpa using hgrows.entries, hgrows.finished, hafter.names⟩, ?_⟩
  rw [hafter.owners, hgrows.referenced]
  rfl

/-- After calls on a fresh builder that all end well, the registry is closed and exact. -/
theorem BuildCall.closedAndExact_performAll {C : Classes} {calls : List BuildCall}
    {returned : List Schema} {b : SchemaBuilder}
    (hrun : (performAll C calls).run {} = .ok returned b) :
    b.registry.ClosedAndExact C (forms C calls) returned := by
  have hsound : ({} : SchemaBuilder).Sound := ⟨rfl, List.nodup_nil⟩
  obtain ⟨⟨hgives, hgiven⟩, hafter, met, hmeets, hgrows⟩ := makes_performAll calls hsound hrun
  have hholds : b.registry.Holds C met :=
    ⟨by simpa using hgrows.entries, hgrows.finished, hafter.names⟩
  have howners : b.registry.entries.map (·.owner) = met.map Leaf.label := by
    rw [hafter.owners, hgrows.referenced]
    rfl
  have hbare : ∀ s, s ∈ returned ∨ s ∈ b.registry.schemas.map (·.2) → s.BareReferences := by
    rintro s (hs | hs)
    · obtain ⟨call, _, hbare, _⟩ := hgives s hs
      exact hbare
    · obtain ⟨form, _, hbody⟩ := hholds.mem_schemas hs
      exact Classes.bareReferences_bodyOf hbody
  have hdistinct : (b.registry.entries.map (·.owner)).Nodup := by
    rw [howners]
    exact hmeets.nodup List.nodup_nil
  constructor
  case closed =>
    rintro s (hs | hs) name hname
    · obtain ⟨call, hcall, _, form, hform, htargets⟩ := hgives s hs
      rw [htargets, Classes.mem_schemaNames_iff] at hname
      obtain ⟨form', hmem, hnamed, rfl⟩ := hname
      rw [List.mem_singleton] at hmem
      subst hmem
      have hform : form' ∈ forms C calls := List.mem_filterMap.mpr ⟨call, hcall, hform⟩
      exact hholds.exists_schema (hmeets.label_mem hform hnamed)
    · obtain ⟨form, hform, hbody⟩ := hholds.mem_schemas hs
      rw [Classes.mem_targets_bodyOf hbody, Classes.mem_schemaNames_iff] at hname
      obtain ⟨inside, hinside, hnamed, rfl⟩ := hname
      exact hholds.exists_schema (hmeets.below_mem hform hinside hnamed)
  case reached =>
    intro entry hentry
    rw [hholds.entries, List.mem_map] at hentry
    obtain ⟨form, hform, rfl⟩ := hentry
    obtain ⟨root, hroot, hnamed, hpath⟩ := hmeets.led hform
    refine hholds.reaches_of_leads hpath ?_
    obtain ⟨call, hcall, hcore⟩ := List.mem_filterMap.mp hroot
    obtain ⟨s, hs, _, form', hform', htargets⟩ := hgiven call hcall
    obtain rfl : root = form' := Option.some.inj (hcore.symm.trans hform')
    refine .root hs ?_
    rw [htargets, Classes.mem_schemaNames_iff]
    exact ⟨root, List.mem_singleton_self root, hnamed, rfl⟩
  case inOrder => exact ⟨met, hmeets, howners⟩
  case ownersDistinct => exact hdistinct
  case namesDistinct => exact hafter.names
  case sameReference =>
    intro s t hs ht m hm n hn e he f hf hme hnf hef
    obtain rfl : e = f := List.inj_on_of_nodup_map hdistinct he hf hef
    rw [hbare s hs m hm _ hme, hbare t ht n hn _ hnf]

/-- Records of one class that hold lists of records of the same class. -/
def Classes.nested : Classes :=
  ({} : Classes).define
    { name := "Node", body := .record false,
      fields := [
        { name := "below", hint := .collection .list (.named "Node"), default := .required }] }

/-- A class that refers to itself, asked for inside a map and on its own. -/
theorem BuildCall.closedAndExact_nested :
    let calls := [.hint (.mapping .dict (.builtin .text) (.named "Node")), .hint (.named "Node")]
    ∃ returned b, (performAll Classes.nested calls).run {} = .ok returned b ∧
      b.registry.ClosedAndExact Classes.nested (forms Classes.nested calls) returned :=
  ⟨_, _, rfl, closedAndExact_performAll rfl⟩

end HttpContract
