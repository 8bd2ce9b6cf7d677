import HttpContract.Proofs.Hierarchies
import HttpContract.Proofs.Schema.Components

/-!
# Histories of a schema builder

A schema builder is used for long: classes are described between calls, calls end well or fail
halfway, and at some moment the registry is frozen. What is left behind is in order all the same.
A call only adds entries behind those that there are, and those never change again.
-/

namespace HttpContract

namespace SchemaRegistry

/-- The class that a name belongs to. -/
def owner? (r : SchemaRegistry) (name : String) : Option String := (r.find? name).map (·.owner)

/-- The class of an entry is found by the entry's name. -/
theorem owner?_eq_some {r : SchemaRegistry} (hnames : (r.entries.map (·.name)).Nodup)
    {entry : SchemaEntry} (hentry : entry ∈ r.entries) :
    r.owner? entry.name = some entry.owner := by
  rw [owner?, find?_eq_some hnames hentry]
  rfl

/-- A name that has an entry has the same one when entries are added behind. -/
theorem find?_of_isPrefix {r later : SchemaRegistry} (hfront : r.entries <+: later.entries)
    {name : String} {entry : SchemaEntry} (hfound : r.find? name = some entry) :
    later.find? name = some entry := by
  obtain ⟨behind, hbehind⟩ := hfront
  rw [find?, ← hbehind, List.find?_append, ← find?, hfound]
  rfl

end SchemaRegistry

/-- The name of a class among schemas stays when another class is described. -/
theorem Classes.schemaNameOf_define {C : Classes} {definition : ClassDef} {className : String}
    (hother : className ≠ definition.name) :
    (C.define definition).schemaNameOf className = C.schemaNameOf className := by
  have hfound : (C.define definition).find? className = C.find? className := by
    rw [find?, find?, define, List.find?_append]
    simp [hother.symm]
  rw [schemaNameOf, hfound, schemaNameOf]

/-- The name of a class among schemas stays when hierarchies are settled. -/
theorem Classes.schemaNameOf_settle (C : Classes) (bases : List String) (className : String) :
    (C.settle bases).schemaNameOf className = C.schemaNameOf className := by
  rw [schemaNameOf, find?, C.entries_settle bases]
  rfl

namespace SchemaBuilder

variable {C : Classes} {b : SchemaBuilder}

/-- A builder in order: it is sound, every name is the one of the class that owns it, and whatever
a finished schema points to is the name of an entry. -/
structure Orderly (C : Classes) (b : SchemaBuilder) : Prop extends Sound b where
  named : ∀ entry ∈ b.registry.entries, entry.name = C.schemaNameOf entry.owner
  pointed : ∀ entry ∈ b.registry.entries, ∀ schema, entry.schema = some schema →
    schema.targets ⊆ b.registry.entries.map (·.name)

namespace Orderly

/-- The name of a class whose reference was given out belongs to this class. -/
theorem owner?_eq (h : Orderly C b) {className : String} (hreferenced : className ∈ b.referenced) :
    b.registry.owner? (C.schemaNameOf className) = some className := by
  rw [← h.owners, List.mem_map] at hreferenced
  obtain ⟨entry, hentry, rfl⟩ := hreferenced
  rw [← h.named entry hentry]
  exact SchemaRegistry.owner?_eq_some h.names hentry

/-- The name of a class whose reference was given out is that of an entry. -/
theorem schemaNameOf_mem (h : Orderly C b) {className : String}
    (hreferenced : className ∈ b.referenced) :
    C.schemaNameOf className ∈ b.registry.entries.map (·.name) := by
  rw [← h.owners, List.mem_map] at hreferenced
  obtain ⟨entry, hentry, rfl⟩ := hreferenced
  exact h.named entry hentry ▸ List.mem_map_of_mem hentry

/-- No class owns two names. -/
theorem nodup_owners (h : Orderly C b) : (b.registry.entries.map (·.owner)).Nodup := by
  have hnames : b.registry.entries.map (·.name) =
      (b.registry.entries.map (·.owner)).map C.schemaNameOf := by
    rw [List.map_map]
    exact List.map_congr_left h.named
  exact (hnames ▸ h.names).of_map

/-- A builder in order stays so when the reference to a new class is given out. -/
theorem refer (h : Orderly C b) {className : String} {isNew : Bool} {registry : SchemaRegistry}
    (hnew : className ∉ b.referenced)
    (hreserve : b.registry.reserve (C.schemaNameOf className) className = .ok (isNew, registry)) :
    Orderly C (b.referring registry className) := by
  obtain ⟨hsound, _, _, hentries⟩ := h.toSound.refer hnew hreserve
  refine ⟨hsound, ?_, ?_⟩
  · intro entry hentry
    rw [referring, hentries, List.mem_append, List.mem_singleton] at hentry
    rcases hentry with hentry | rfl
    · exact h.named entry hentry
    · rfl
  · intro entry hentry schema hschema
    rw [referring, hentries] at hentry ⊢
    rw [List.map_append]
    rcases List.mem_append.mp hentry with hentry | hentry
    · exact List.subset_append_of_subset_left _ (h.pointed entry hentry schema hschema)
    · rw [List.mem_singleton.mp hentry] at hschema
      cases hschema

/-- A builder in order stays so when a schema is finished that points to names of entries. -/
theorem complete (h : Orderly C b) (name : String) {schema : Schema}
    (htargets : schema.targets ⊆ b.registry.entries.map (·.name)) :
    Orderly C (b.completing name schema) := by
  refine ⟨h.toSound.complete name schema, ?_, ?_⟩
  · intro entry hentry
    obtain ⟨before, hbefore, rfl⟩ := List.mem_map.mp hentry
    split
    · exact h.named before hbefore
    · exact h.named before hbefore
  · intro entry hentry other hother
    rw [completing, SchemaRegistry.names_complete]
    obtain ⟨before, hbefore, rfl⟩ := List.mem_map.mp hentry
    split at hother
    · cases hother
      exact htargets
    · exact h.pointed before hbefore other hother

/-- A builder in order stays so when another class is described. -/
theorem define (h : Orderly C b) {definition : ClassDef}
    (hnew : definition.name ∉ b.referenced) : Orderly (C.define definition) b := by
  refine ⟨h.toSound, fun entry hentry => ?_, h.pointed⟩
  have howner : entry.owner ≠ definition.name := by
    intro heq
    rw [← h.owners, ← heq] at hnew
    exact hnew (List.mem_map_of_mem hentry)
  rw [Classes.schemaNameOf_define howner]
  exact h.named entry hentry

/-- A builder in order stays so when hierarchies are settled. -/
theorem settle (h : Orderly C b) (bases : List String) : Orderly (C.settle bases) b := by
  refine ⟨h.toSound, fun entry hentry => ?_, h.pointed⟩
  rw [C.schemaNameOf_settle]
  exact h.named entry hentry

end Orderly

/-- What stays true when something is looked up is kept by a composition whose parts keep it. -/
theorem composable_keeps {I : SchemaBuilder → Prop}
    (hask : ∀ (b : SchemaBuilder) (bases : List String), I b →
      I { b with asked := b.asked ++ bases }) : Composable fun _ m => Keeps I m where
  pure := .pure
  require result := by
    cases result with
    | ok a => exact .pure a
    | error e =>
      rintro b after (⟨_, ⟨⟩⟩ | ⟨_, ⟨⟩⟩) hb
      exact hb
  ask bases := by
    rintro b after (⟨_, ⟨⟩⟩ | ⟨_, ⟨⟩⟩) hb
    exact hask b bases hb
  bind := .bind

/-- The look-up of bases leaves a builder in order. -/
theorem composable_orderly (C : Classes) : Composable fun _ m => Keeps (Orderly C) m :=
  composable_keeps fun _ _ h => ⟨⟨h.owners, h.names⟩, h.named, h.pointed⟩

/-- The reference to a class leaves a builder in order, also when the body fails on the way. -/
theorem keeps_orderly_named {body : BuildSchema Schema} (form : Leaf)
    (hbody : Keeps (Orderly C) body)
    (hmakes : Makes C body (C.below form) (C.bodyOf form = .ok ·)) :
    Keeps (Orderly C) (named C form.label body) := by
  refine keeps_named (fun b isNew registry hnew hreserve hb => hb.refer hnew hreserve) hbody ?_
  intro b finish registry schema hnew hreserve hb hrun hfinish
  refine hfinish.complete _ fun name hname => ?_
  -- The body has met every class that it points to, so each of them owns its name by now.
  obtain ⟨hschema, _, new, hmeets, hgrows⟩ := hmakes (hb.refer hnew hreserve).toSound hrun
  rw [Classes.mem_targets_bodyOf hschema, Classes.mem_schemaNames_iff] at hname
  obtain ⟨inside, hinside, hnamed, rfl⟩ := hname
  apply hfinish.schemaNameOf_mem
  rw [hgrows.referenced]
  exact hmeets.label_mem hinside hnamed

/-- What is kept by compositions and by the reference to a class is kept by the reference to every
form, however deep bodies may be nested. -/
theorem keeps_leafSchema {I : SchemaBuilder → Prop} (hparts : Composable fun _ m => Keeps I m)
    (hreference : ∀ (form : Leaf) (body : BuildSchema Schema), Step C body → Keeps I body →
      Makes C body (C.below form) (C.bodyOf form = .ok ·) → Keeps I (named C form.label body))
    (depth : Nat) (form : Leaf) : Keeps I (leafSchema C depth form) := by
  have hsteps := Step.composable C
  have henumeration (name : String) : Keeps I (named C name (enumerationBody C name)) :=
    hreference (.enumeration name) _ (hsteps.enumerationBody C name)
      (hparts.enumerationBody C name) (Makes.enumerationBody name)
  induction depth generalizing form with
  | zero =>
    cases form with
    | enumeration name => exact henumeration name
    | scalar s | any | record name | polymorphic name => exact hparts.require (.error _)
  | succ depth ih =>
    cases form with
    | scalar s => exact hparts.pure _
    | any => exact hparts.pure _
    | enumeration name => exact henumeration name
    | record name =>
      exact hreference (.record name) _ (hsteps.recordBody (Step.leafSchema C depth) name)
        (hparts.recordBody ih name) (Makes.recordBody (Makes.leafSchema depth) name)
    | polymorphic base =>
      refine (hparts.ask [base]).bind fun _ => ?_
      cases hbase : C.hierarchy base with
      | error e =>
        rintro b after (⟨_, ⟨⟩⟩ | ⟨_, ⟨⟩⟩) hb
        exact hb
      | ok h =>
        exact hreference (.polymorphic base) _
          (hsteps.variantsBody (fun name => Step.leafSchema C depth (.record name)) h)
          (hparts.variantsBody (fun name => ih (.record name)) h)
          (Makes.variantsBody (fun name => Makes.leafSchema depth (.record name)) hbase)

/-- The reference to a form leaves a builder in order, however deep bodies may be nested. -/
theorem keeps_orderly_leafSchema (C : Classes) (depth : Nat) (form : Leaf) :
    Keeps (Orderly C) (leafSchema C depth form) :=
  keeps_leafSchema (composable_orderly C) (fun form _ _ => keeps_orderly_named form) depth form

/-- A frozen registry is left as it is by whatever is made. -/
theorem invariant_frozen (C : Classes) {r : SchemaRegistry} (hfrozen : r.frozen = true) :
    Invariant C fun b => b.registry = r := by
  have hclosed {name owner : String} {answer : Bool × SchemaRegistry} :
      r.reserve name owner ≠ .ok answer := by
    rw [SchemaRegistry.reserve, if_pos hfrozen]
    exact fun h => by cases h
  refine ⟨fun _ _ h => h, ?_, ?_⟩
  · rintro b className isNew registry _ hreserve rfl
    exact absurd hreserve hclosed
  · rintro b later className registry schema _ hreserve rfl _
    exact absurd hreserve hclosed

end SchemaBuilder

namespace BuildCall

variable {C : Classes}

/-- A call is made in steps. -/
theorem step_perform (C : Classes) (call : BuildCall) :
    SchemaBuilder.Step C (call.perform C) := by
  cases call with
  | hint h => exact .ofHint C h
  | field f => exact .ofField C f

/-- A call leaves a builder in order, however it ends. -/
theorem keeps_orderly_perform (C : Classes) (call : BuildCall) :
    Keeps (SchemaBuilder.Orderly C) (call.perform C) := by
  have hparts := SchemaBuilder.composable_orderly C
  have hleaf := SchemaBuilder.keeps_orderly_leafSchema C (SchemaBuilder.greatestDepth C)
  cases call with
  | hint h => exact hparts.ofHint hleaf h
  | field f => exact hparts.fieldSchema hleaf f

end BuildCall

/-- The described classes together with the schema builder that is used with them. -/
structure Session where
  classes : Classes
  builder : SchemaBuilder

namespace Session

/-- How a session may go on: classes are described that the builder has not met, hierarchies are
settled, calls end with a schema or with a failure, and the registry is frozen. -/
inductive Later (s : Session) : Session → Prop
  | refl : Later s s
  | describe {C : Classes} {b : SchemaBuilder} (definition : ClassDef) (hlater : Later s ⟨C, b⟩)
      (hnew : definition.name ∉ b.referenced) : Later s ⟨C.define definition, b⟩
  | settle {C : Classes} {b : SchemaBuilder} (bases : List String) (hlater : Later s ⟨C, b⟩) :
      Later s ⟨C.settle bases, b⟩
  | build {C : Classes} {b after : SchemaBuilder} (call : BuildCall) (hlater : Later s ⟨C, b⟩)
      (hends : Ends (call.perform C) b after) : Later s ⟨C, after⟩
  | freeze {C : Classes} {b : SchemaBuilder} (hlater : Later s ⟨C, b⟩) :
      Later s ⟨C, { b with registry := b.registry.freeze }⟩

/-- A session is in order when its builder is. -/
def Orderly (s : Session) : Prop := SchemaBuilder.Orderly s.classes s.builder

variable {s t : Session}

/-- A session in order stays so. -/
theorem Later.orderly (h : Later s t) (hs : s.Orderly) : t.Orderly := by
  induction h with
  | refl => exact hs
  | describe definition _ hnew ih => exact ih.define hnew
  | settle bases _ ih => exact ih.settle bases
  | build call _ hends ih => exact call.keeps_orderly_perform _ hends ih
  | freeze _ ih => exact ⟨⟨ih.owners, ih.names⟩, ih.named, ih.pointed⟩

/-- Entries that there are stay in front of those that are made later, unchanged. -/
theorem Later.isPrefix_entries (h : Later s t) (hs : s.Orderly) :
    s.builder.registry.entries <+: t.builder.registry.entries := by
  induction h with
  | refl => exact List.prefix_refl _
  | describe _ _ _ ih | settle _ _ ih | freeze _ ih => exact ih
  | @build C b after call hlater hends ih =>
    have hsound : b.Sound := (hlater.orderly hs).toSound
    have hkept := SchemaBuilder.invariant_sound C s.builder.registry.entries
    exact ((call.step_perform C).keeps hkept hends ⟨hsound, ih⟩).2

/-- A frozen registry stays as it is. -/
theorem Later.registry_eq (h : Later s t) (hfrozen : s.builder.registry.frozen = true) :
    t.builder.registry = s.builder.registry := by
  induction h with
  | refl => rfl
  | describe _ _ _ ih | settle _ _ ih => exact ih
  | @build C b after call _ hends ih =>
    exact (call.step_perform C).keeps (SchemaBuilder.invariant_frozen C hfrozen) hends ih
  | @freeze C b _ ih =>
    have hsame : b.registry = s.builder.registry := ih
    rw [hsame, SchemaRegistry.freeze, ← hfrozen]

/-- The names of the classes that the builder has met stay as they are. -/
theorem Later.schemaNameOf_eq (h : Later s t) (hs : s.Orderly) {className : String}
    (hreferenced : className ∈ s.builder.referenced) :
    className ∈ t.builder.referenced ∧
      t.classes.schemaNameOf className = s.classes.schemaNameOf className := by
  have ht := h.orderly hs
  obtain ⟨entry, hentry, rfl⟩ := List.mem_map.mp (hs.owners ▸ hreferenced)
  have hlater : entry ∈ t.builder.registry.entries := (h.isPrefix_entries hs).subset hentry
  refine ⟨ht.owners ▸ List.mem_map_of_mem hlater, ?_⟩
  rw [← ht.named entry hlater, hs.named entry hentry]

/-- What holds of names, their owners and references at any moment. -/
structure Owned (s : Session) : Prop where
  /-- No name belongs to two classes. -/
  names : (s.builder.registry.entries.map (·.name)).Nodup
  /-- No class has two names. -/
  owners : (s.builder.registry.entries.map (·.owner)).Nodup
  /-- The references given out carry the names of their classes, which belong to these classes. -/
  referenced : ∀ className ∈ s.builder.referenced,
    s.builder.registry.owner? (s.classes.schemaNameOf className) = some className
  /-- So do the references inside finished schemas. -/
  pointed : ∀ schema ∈ s.builder.registry.schemas.map (·.2), ∀ name ∈ schema.targets,
    ∃ className ∈ s.builder.referenced, s.classes.schemaNameOf className = name
  /-- So does the reference that a call returns, if it is about a class. -/
  returned : ∀ (call : BuildCall) (schema : Schema) (after : SchemaBuilder),
    (call.perform s.classes).run s.builder = .ok schema after →
      schema.BareReferences ∧ ∃ form, call.form? s.classes = some form ∧
        schema.targets = s.classes.schemaNames [form] ∧
        (form.isNamed = true → form.label ∈ after.referenced ∧
          after.registry.owner? (s.classes.schemaNameOf form.label) = some form.label)

/-- What stays of one session in another one. -/
structure Preserved (s t : Session) : Prop where
  /-- Names keep their owners. -/
  owners : ∀ name owner, s.builder.registry.owner? name = some owner →
    t.builder.registry.owner? name = some owner
  /-- Finished schemas are not replaced. -/
  schemas : ∀ name schema, s.builder.registry.schema? name = some schema →
    t.builder.registry.schema? name = some schema
  /-- References that were given out stay, and carry the same names. -/
  referenced : ∀ className ∈ s.builder.referenced, className ∈ t.builder.referenced ∧
    t.classes.schemaNameOf className = s.classes.schemaNameOf className
  /-- Once the registry is frozen it does not change at all. -/
  frozen : s.builder.registry.frozen = true → t.builder.registry = s.builder.registry

/-- A session in order has its names owned. -/
theorem Orderly.owned (hs : s.Orderly) : s.Owned := by
  refine ⟨hs.names, hs.nodup_owners, fun _ h => hs.owner?_eq h, ?_, ?_⟩
  · intro schema hschema name hname
    obtain ⟨entry, hentry, hfinished⟩ := SchemaRegistry.mem_schemas_iff.mp hschema
    obtain ⟨target, htarget, rfl⟩ :=
      List.mem_map.mp (hs.pointed entry hentry schema hfinished hname)
    exact ⟨target.owner, hs.owners ▸ List.mem_map_of_mem htarget, (hs.named target htarget).symm⟩
  · intro call schema after hrun
    obtain ⟨⟨hbare, form, hform, htargets⟩, _, new, hmeets, hgrows⟩ :=
      call.makes_perform hs.toSound hrun
    refine ⟨hbare, form, hform, htargets, fun hnamed => ?_⟩
    have hafter := call.keeps_orderly_perform s.classes (Or.inl ⟨schema, hrun⟩) hs
    have hmet : form.label ∈ after.referenced := by
      rw [hgrows.referenced]
      exact hmeets.label_mem (by simp [hform]) hnamed
    exact ⟨hmet, hafter.owner?_eq hmet⟩

/-- Whatever happens to a schema builder, names keep their owners, one each, finished schemas are
not replaced, references carry names that belong to their classes, and a frozen registry does not
change. -/
theorem Later.ownership {C : Classes} (hs : Later ⟨C, {}⟩ s) (ht : Later s t) :
    s.Owned ∧ s.Preserved t := by
  have hfresh : Orderly ⟨C, {}⟩ := ⟨⟨rfl, List.nodup_nil⟩, by simp, by simp⟩
  have horderly := hs.orderly hfresh
  have hfront := ht.isPrefix_entries horderly
  refine ⟨horderly.owned, ?_, ?_, fun _ h => ht.schemaNameOf_eq horderly h, ht.registry_eq⟩
  · intro name owner howner
    obtain ⟨entry, hentry, rfl⟩ := Option.map_eq_some_iff.mp howner
    rw [SchemaRegistry.owner?, SchemaRegistry.find?_of_isPrefix hfront hentry]
    rfl
  · intro name schema hschema
    obtain ⟨entry, hentry, hfinished⟩ := Option.bind_eq_some_iff.mp hschema
    rw [SchemaRegistry.schema?, SchemaRegistry.find?_of_isPrefix hfront hentry]
    exact hfinished

end Session

/-- Two classes with one name among schemas, and a record that holds both. -/
def Classes.rivals : Classes :=
  let point : ClassDef :=
    { name := "Point", body := .record false,
      fields := [{ name := "x", hint := .builtin .integer, default := .required }] }
  let mark : ClassDef := { point with name := "Mark", notes := { schemaName := some "Point" } }
  let pair : ClassDef :=
    { name := "Pair", body := .record false,
      fields := [
        { name := "point", hint := .named "Point", default := .required },
        { name := "mark", hint := .named "Mark", default := .required }] }
  ((({} : Classes).define point).define mark).define pair

/-- The schema of the record fails halfway, the registry is frozen, and another class is described
whose schema fails as well. -/
theorem Session.ownership_rivals :
    let pair := BuildCall.hint (.named "Pair")
    let line : ClassDef := { name := "Line", body := .record false }
    ∃ e b e' after, (pair.perform Classes.rivals).run {} = .error e b ∧
      let frozen : SchemaBuilder := { b with registry := b.registry.freeze }
      ((BuildCall.hint (.named "Line")).perform (Classes.rivals.define line)).run frozen =
        .error e' after ∧
      Owned ⟨Classes.rivals, frozen⟩ ∧
      Preserved ⟨Classes.rivals, frozen⟩ ⟨Classes.rivals.define line, after⟩ := by
  refine ⟨_, _, _, _, rfl, rfl, ?_⟩
  refine Later.ownership (.freeze (.build (.hint (.named "Pair")) .refl (Or.inr ⟨_, rfl⟩))) ?_
  refine .build (.hint (.named "Line")) (.describe _ .refl ?_) (Or.inr ⟨_, rfl⟩)
  decide

end HttpContract
