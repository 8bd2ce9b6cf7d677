import HttpContract.Proofs.Application.PathVariables
import HttpContract.Proofs.Schema.Limits

/-!
# Where null in a document comes from

Attributes that are absent are not written, but for two that a registration can leave behind: the
description of a tag that was made without one, from the member of an enumeration, and a limit whose
bound is not finite. Every null of a document outside of defaults and enumerations is one of these,
and goes back to a registration that was asked for, accepted or refused.
-/

namespace HttpContract

namespace Tag

/-- Whether tags that are described by null have names with a property only. -/
def NullsNamed (Q : String → Prop) (tags : List Tag) : Prop :=
  ∀ t ∈ tags, t.description = some none → Q t.name

variable {Q : String → Prop} {tags : List Tag} {incoming : Tag}

/-- A description that is filled in is not null. -/
theorem eq_of_description_filledBy {t : Tag} (h : (filledBy incoming t).description = some none) :
    filledBy incoming t = t := by
  unfold filledBy at h ⊢
  split
  · rename_i hfill
    rw [if_pos hfill] at h
    have htext : incoming.text? = none := by
      rw [text?, h]
      rfl
    rw [htext] at hfill
    exact absurd hfill.2.2 Bool.false_ne_true
  · rfl

/-- Filling in descriptions describes no tag by null. -/
theorem NullsNamed.map_filledBy (h : NullsNamed Q tags) :
    NullsNamed Q (tags.map (filledBy incoming)) := by
  intro t ht hnull
  obtain ⟨before, hbefore, rfl⟩ := List.mem_map.mp ht
  have hsame := eq_of_description_filledBy hnull
  rw [hsame] at hnull ⊢
  exact h before hbefore hnull

/-- A tag that is added is the only one that null may come with. -/
theorem NullsNamed.addTo (h : NullsNamed Q tags)
    (hincoming : incoming.description = some none → Q incoming.name) :
    NullsNamed Q (addTo tags incoming) := by
  unfold Tag.addTo
  split
  · exact h.map_filledBy
  · exact List.forall_mem_append.mpr ⟨h, List.forall_mem_singleton.mpr hincoming⟩

end Tag

/-- Whether a source stands for a tag that is described by null: one that was given so, or the
member of an enumeration that neither its value nor the settings describe. -/
def TagSource.Undescribed (settings : Settings) : TagSource → Prop
  | .tag t => t.description = some none
  | .name _ => False
  | .member label value => value.asText?.getD "" = "" ∧ Tag.settled? settings label = none

/-- A source is undescribed exactly when its tag is described by null. -/
theorem Tag.description_ofSource_iff (settings : Settings) (source : TagSource) :
    (ofSource settings source).description = some none ↔ source.Undescribed settings := by
  cases source with
  | tag t => rfl
  | name name => simp [ofSource, TagSource.Undescribed]
  | member name value =>
    rw [ofSource, TagSource.Undescribed]
    cases value.asText? with
    | none => simp
    | some text => by_cases h : text = "" <;> simp [h]

namespace Assembler

/-- The document that is made is the one that the assembler has then. -/
theorem document_finalize (a : Assembler) : a.finalize.2.document = some a.finalize.1 := by
  cases h : a.document with
  | none => rw [finalize_of_none h]
  | some d =>
    rw [finalize_of_some h]
    exact h

section Tags

/-- Whether all tags that are described by null have names with a property, those of the document
included. -/
structure NullsNamed (settings : Settings) (Q : String → Prop) (a : Assembler) : Prop where
  settings_eq : a.settings = settings
  tags : Tag.NullsNamed Q a.tags
  document : ∀ d, a.document = some d → Tag.NullsNamed Q d.tags

variable {settings : Settings} {Q : String → Prop} {a : Assembler} {sources : List TagSource}

/-- The tag of a source is the only one that null may come with. -/
theorem NullsNamed.addTag (h : a.NullsNamed settings Q) {source : TagSource}
    (hsource : source.Undescribed settings → Q (Tag.ofSource settings source).name) :
    (a.addTag source).2.NullsNamed settings Q := by
  refine ⟨h.settings_eq, ?_, fun d hd => ?_⟩
  · refine h.tags.addTo ?_
    rw [h.settings_eq, Tag.description_ofSource_iff]
    exact hsource
  · obtain ⟨before, hbefore, rfl⟩ := Option.map_eq_some_iff.mp hd
    exact (h.document before hbefore).map_filledBy

/-- The tags of sources are the only ones that null may come with. -/
theorem NullsNamed.addTags (h : a.NullsNamed settings Q)
    (hsources : ∀ source ∈ sources, source.Undescribed settings →
      Q (Tag.ofSource settings source).name) :
    (addTags sources a).2.NullsNamed settings Q := by
  have hfold (names : List String) :
      (sources.foldl addNamed (names, a)).2.NullsNamed settings Q := by
    induction sources generalizing names a with
    | nil => exact h
    | cons source rest ih =>
      obtain ⟨hsource, hrest⟩ := List.forall_mem_cons.mp hsources
      exact ih (h.addTag hsource) hrest _
  exact hfold []

/-- The document is made with the tags that there are. -/
theorem NullsNamed.finalize (h : a.NullsNamed settings Q) :
    a.finalize.2.NullsNamed settings Q := by
  cases hdocument : a.document with
  | none =>
    rw [finalize_of_none hdocument]
    refine ⟨h.settings_eq, h.tags, fun d hd => ?_⟩
    cases hd
    exact h.tags
  | some d =>
    rw [finalize_of_some hdocument]
    exact h

/-- Attaching an operation leaves the tags as they are. -/
theorem keeps_nullsNamed_addOperation (paths : List String) (method : String) (made : Operation) :
    Keeps (NullsNamed settings Q) (addOperation paths method made) := by
  intro a after hends h
  obtain rfl | rfl := ends_addOperation hends
  · exact h
  · exact ⟨h.settings_eq, h.tags, h.document⟩

end Tags

section Limits

/-- Whether all schemas of an assembler have limits with a property only, those of the document
included. -/
structure Limited (P : Json → Prop) (a : Assembler) : Prop where
  builder : a.builder.Limited P
  operations : ∀ item ∈ a.paths, ∀ entry ∈ item.2, ∀ s ∈ entry.2.schemas, s.Limited P
  document : ∀ d, a.document = some d → ∀ s ∈ d.shownSchemas, s.Limited P

variable {P : Json → Prop} {C : Classes} {a : Assembler} {made : Operation}

/-- What is built leaves the limits of an assembler as they may be. -/
theorem gives_building {α : Type} {R : α → Prop} {step : BuildSchema α}
    (h : Gives (SchemaBuilder.Limited P) R step) : Gives (Limited P) R (building step) := by
  constructor
  · intro a after hends ha
    obtain ⟨builder, hbuilt, rfl⟩ := ends_building hends
    exact ⟨h.keeps hbuilt ha.builder, ha.operations, ha.document⟩
  · intro a after result ha hrun
    rw [run_building] at hrun
    split at hrun
    · rename_i hbuilt
      cases hrun
      exact h.result ha.builder hbuilt
    · cases hrun

/-- Adding tags leaves the limits as they are. -/
theorem Limited.addTags (h : a.Limited P) (sources : List TagSource) :
    (addTags sources a).2.Limited P := by
  obtain ⟨_, huntagged, _⟩ := addTags_eq sources a
  have hpaths : (Assembler.addTags sources a).2.paths = a.paths := congrArg (·.paths) huntagged
  refine ⟨?_, ?_, fun d hd => ?_⟩
  · rw [builder_addTags]
    exact h.builder
  · rw [hpaths]
    exact h.operations
  · have hdocument : (Assembler.addTags sources a).2.document.map Document.untagged =
        a.document.map Document.untagged := congrArg (·.document) huntagged
    rw [hd] at hdocument
    obtain ⟨before, hbefore, heq⟩ := Option.map_eq_some_iff.mp hdocument.symm
    have hschemas : before.untagged.shownSchemas = d.untagged.shownSchemas := by rw [heq]
    exact fun s hs => h.document before hbefore s (hschemas.symm ▸ hs)

/-- The parameters of a binder have the limits of the described classes. -/
theorem gives_parameters (hC : C.Limited P) {params : Option Hint} {binder : Option Binder}
    (hbinder : C.binderOf params = .ok binder) :
    Gives (Limited P) (fun params => ∀ p ∈ params, p.schema.Limited P) (parameters C binder) := by
  cases binder with
  | none => exact .pure (by simp)
  | some b =>
    obtain ⟨hshape, _, hfields⟩ := Classes.binder_eq_ok (Classes.binder_of_binderOf hbinder)
    refine gives_building (Parameter.gives_ofEach hC fun bound hbound => ?_)
    exact hC _ b.shape hshape bound.field (hfields ▸ List.mem_map_of_mem hbound)

/-- The body of an operation has the limits of its type. -/
theorem gives_bodyOf (hC : C.Limited P) {hint : Option Hint}
    (hhint : ∀ body ∈ hint, ∀ type, C.resolve body [] = .ok type → type.Limited P) :
    Gives (Limited P) (fun body => ∀ b ∈ body, b.schema.Limited P) (bodyOf C hint) := by
  cases hint with
  | none => exact .pure (by simp)
  | some body =>
    have hschema := gives_building (SchemaBuilder.gives_ofHint hC (hhint body rfl))
    refine Gives.bind (P := fun b => b.schema.Limited P) ?_ fun b hb => .pure (by simpa using hb)
    exact hschema.bind fun s hs => .pure hs

/-- The response of an operation has the limits of its type. -/
theorem gives_response (hC : C.Limited P) {hint : Option Hint}
    (hhint : ∀ body ∈ hint, ∀ type, C.resolve body [] = .ok type → type.Limited P) :
    Gives (Limited P) (fun response => ∀ s ∈ response.schema, s.Limited P) (response C hint) := by
  cases hint with
  | none => exact .pure (by simp)
  | some type =>
    have hschema := gives_building (SchemaBuilder.gives_ofHint hC (hhint type rfl))
    exact hschema.bind fun s hs => .pure (by simpa using hs)

/-- What stands under a path where an operation is set is this operation, or stood there before. -/
theorem mem_setPath {path method : String} {table : Table String PathItem}
    {item : String × PathItem} (hitem : item ∈ setPath path method made table)
    {entry : String × Operation} (hentry : entry ∈ item.2) :
    entry.2 = made ∨ ∃ before ∈ table, entry ∈ before.2 := by
  obtain hitem | rfl := Table.mem_of_mem_update hitem
  · exact Or.inr ⟨item, hitem, hentry⟩
  · obtain hentry | rfl := Table.mem_of_mem_set hentry
    · cases hfound : Table.get? path table with
      | none =>
        rw [hfound] at hentry
        cases hentry
      | some before =>
        rw [hfound] at hentry
        exact Or.inr ⟨(path, before), Table.mem_of_get? hfound, hentry⟩
    · exact Or.inl rfl

/-- What stands under a path where an operation is attached is an alias of this operation, or stood
there before. -/
theorem mem_withOperation {paths : List String} {method : String} {table : Table String PathItem}
    {item : String × PathItem} (hitem : item ∈ withOperation paths method made table)
    {entry : String × Operation} (hentry : entry ∈ item.2) :
    (∃ index, entry.2 = underAlias made index) ∨ ∃ before ∈ table, entry ∈ before.2 := by
  have hattached : ∀ shown ∈ paths.zip (attached paths made),
      ∃ index, shown.2 = underAlias made index := by
    rintro ⟨path, shown⟩ hshown
    obtain ⟨index, _, rfl⟩ := List.mem_map.mp (List.of_mem_zip hshown).2
    exact ⟨index, rfl⟩
  unfold withOperation at hitem
  -- A path may be given twice, so what stood there before may be an earlier alias.
  generalize paths.zip (attached paths made) = entries at hitem hattached
  induction entries generalizing table with
  | nil => exact Or.inr ⟨item, hitem, hentry⟩
  | cons first rest ih =>
    obtain ⟨⟨index, hfirst⟩, hrest⟩ := List.forall_mem_cons.mp hattached
    obtain hfound | ⟨between, hbetween, hmem⟩ := ih hitem hrest
    · exact Or.inl hfound
    · obtain hmade | hbefore := mem_setPath hbetween hmem
      · exact Or.inl ⟨index, hmade.trans hfirst⟩
      · exact Or.inr hbefore

/-- An operation shows the same schemas under every path. -/
theorem schemas_underAlias (made : Operation) (index : Nat) :
    (underAlias made index).schemas = made.schemas := by
  unfold underAlias
  split <;> rfl

/-- Attaching an operation adds its limits. -/
theorem keeps_limited_addOperation {paths : List String} {method : String}
    (hmade : ∀ s ∈ made.schemas, s.Limited P) :
    Keeps (Limited P) (addOperation paths method made) := by
  intro a after hends h
  obtain rfl | rfl := ends_addOperation hends
  · exact h
  · refine ⟨h.builder, fun item hitem entry hentry => ?_, h.document⟩
    obtain ⟨index, hshown⟩ | ⟨before, hbefore, hmem⟩ := mem_withOperation hitem hentry
    · rw [hshown, schemas_underAlias]
      exact hmade
    · exact h.operations before hbefore entry hmem

/-- The document is made with the limits that there are. -/
theorem Limited.present (h : a.Limited P) : ∀ s ∈ a.present.shownSchemas, s.Limited P := by
  intro s hs
  obtain hs | hs := List.mem_append.mp hs
  · obtain ⟨item, hitem, hs⟩ := List.mem_flatMap.mp hs
    obtain ⟨entry, hentry, hs⟩ := List.mem_flatMap.mp hs
    have hget := (PathItem.mem_documented.mp (List.mem_filter.mp hentry).1).2
    exact h.operations item (List.mem_filter.mp hitem).1 entry (Table.mem_of_get? hget) s hs
  · obtain ⟨p, hp, hs⟩ := List.mem_flatMap.mp hs
    obtain rfl := List.mem_singleton.mp hs
    obtain ⟨entry, hentry, hschema⟩ := SchemaRegistry.mem_schemas_iff.mp
      (List.mem_map_of_mem (List.mem_filter.mp hp).1)
    exact h.builder.finished entry hentry p.2 hschema

/-- The limits stay as they are when the document is made. -/
theorem Limited.finalize (h : a.Limited P) : a.finalize.2.Limited P := by
  cases hdocument : a.document with
  | none =>
    rw [finalize_of_none hdocument]
    refine ⟨⟨⟨h.builder.owners, h.builder.names⟩, h.builder.finished⟩, h.operations, fun d hd => ?_⟩
    cases hd
    exact h.present
  | some d =>
    rw [finalize_of_some hdocument]
    exact h

end Limits

end Assembler

namespace Registration

/-- What the tags of a registration are made of. -/
def sources (r : Registration) : List TagSource := r.group.tags ++ r.spec.operation.tags

/-- Whether a constraint comes with a registration: on a field of a class that is described by then,
or inside the type of the body or of the response. -/
inductive Constrains (r : Registration) (c : Constraint) : Prop
  | field {name : String} {shape : Shape} {f : Field} (hshape : r.classes.shape name = .ok shape)
      (hf : f ∈ shape.fields) (hc : c ∈ f.type.innerConstraints)
  | body {hint : Hint} {type : TypeInfo} (hhint : Hint.asking r.spec.operation.body = some hint)
      (htype : r.classes.resolve hint [] = .ok type) (hc : c ∈ type.innerConstraints)
  | response {hint : Hint} {type : TypeInfo}
      (hhint : Hint.asking r.spec.operation.response = some hint)
      (htype : r.classes.resolve hint [] = .ok type) (hc : c ∈ type.innerConstraints)

end Registration

namespace Application

/-- The registrations that a history asks for, accepted or refused. -/
def asked : List (Classes × Action) → List Registration
  | [] => []
  | (C, .register group spec) :: rest => ⟨C, group, spec⟩ :: asked rest
  | (_, .request _) :: rest | (_, .document) :: rest => asked rest

variable {P : Json → Prop} {Q : String → Prop} {settings : Settings} {C : Classes}
  {group : RouteGroup} {spec : RouteDescription} {binder : Option Binder}

/-- Assembling the operation of a registration adds its tags. -/
theorem keeps_nullsNamed_assemble (hsources : ∀ source ∈ group.tags ++ spec.operation.tags,
      source.Undescribed settings → Q (Tag.ofSource settings source).name)
    (templates : List String) :
    Keeps (Assembler.NullsNamed settings Q) (assemble C group spec templates binder) := by
  refine Keeps.bind ?_ fun made => Assembler.keeps_nullsNamed_addOperation _ _ made
  refine (step_described C group spec binder).keeps (fun _ _ _ _ h => ?_) fun a h => ?_
  · exact ⟨h.settings_eq, h.tags, h.document⟩
  · exact h.addTags hsources

/-- The operation of a registration has the limits that come with it. -/
theorem gives_described {r : Registration}
    (hr : ∀ c, r.Constrains c → ∀ limit, c.Sets limit → P limit)
    (hbinder : r.classes.binderOf r.spec.params = .ok binder) :
    Gives (Assembler.Limited P) (fun made => ∀ s ∈ made.schemas, s.Limited P)
      (described r.classes r.group r.spec binder) := by
  have hC : r.classes.Limited P := fun name shape hshape f hf c hc =>
    hr c (.field hshape hf hc)
  refine (Assembler.gives_parameters hC hbinder).bind fun params hparams => ?_
  rw [Assembler.operation_eq]
  have htags : Keeps (Assembler.Limited P)
      (modifyGet (Assembler.addTags (r.group.tags ++ r.spec.operation.tags)) :
        Assemble (List String)) := by
    rintro a after (⟨_, ⟨⟩⟩ | ⟨_, ⟨⟩⟩) ha
    exact ha.addTags _
  refine htags.gives.bind fun tags _ => ?_
  refine (Assembler.gives_bodyOf hC fun hint hhint type htype c hc =>
    hr c (.body hhint htype hc)).bind fun body hbody => ?_
  refine (Assembler.gives_response hC fun hint hhint type htype c hc =>
    hr c (.response hhint htype hc)).bind fun response hresponse => .pure ?_
  refine List.forall_mem_append.mpr ⟨List.forall_mem_append.mpr ⟨?_, ?_⟩, ?_⟩
  · exact List.forall_mem_map.mpr hparams
  · simpa [Assembler.operationOf] using hbody
  · simpa [Assembler.operationOf] using hresponse

/-- Assembling the operation of a registration adds the limits that come with it. -/
theorem keeps_limited_assemble {r : Registration}
    (hr : ∀ c, r.Constrains c → ∀ limit, c.Sets limit → P limit)
    (hbinder : r.classes.binderOf r.spec.params = .ok binder) (templates : List String) :
    Keeps (Assembler.Limited P) (assemble r.classes r.group r.spec templates binder) :=
  ((gives_described hr hbinder).bind fun _ hmade =>
    (Assembler.keeps_limited_addOperation hmade).gives).keeps

variable {I : Assembler → Prop} {app : Application} {history : List (Classes × Action)}

/-- What stays true of an assembler when an operation is assembled and when the document is made
stays true throughout a history. -/
theorem assembler_afterHistory
    (hassemble : ∀ r ∈ asked history, ∀ templates binder,
      r.classes.binderOf r.spec.params = .ok binder →
        Keeps I (assemble r.classes r.group r.spec templates binder))
    (hfinalize : ∀ a : Assembler, I a → I a.finalize.2) (h : I app.assembler) :
    I (app.afterHistory history).assembler := by
  induction history generalizing app with
  | nil => exact h
  | cons step rest ih =>
    obtain ⟨C, action⟩ := step
    cases action with
    | document => exact ih hassemble (hfinalize _ h)
    | request request =>
      refine ih hassemble ?_
      obtain hafter | hafter := perform_request_eq C app request
      · rwa [hafter]
      · rw [hafter]
        exact hfinalize _ h
    | register group spec =>
      obtain ⟨hfirst, hrest⟩ := List.forall_mem_cons.mp hassemble
      refine ih hrest ?_
      unfold perform
      dsimp only
      split
      · rename_i hrun
        obtain ⟨templates, binder, added, _, hprepare, hmade, rfl⟩ := run_register_eq_ok hrun
        exact hfirst templates binder (prepare_eq_ok hprepare).2 (Or.inl ⟨added, hmade⟩) h
      · rename_i e _ hrun
        obtain ⟨_, rfl⟩ | ⟨templates, binder, _, hprepare, hmade, rfl⟩ := run_register_eq_error hrun
        · exact h
        · exact hfirst templates binder (prepare_eq_ok hprepare).2 (Or.inr ⟨e, hmade⟩) h

/-- Whatever was registered before, accepted or refused, the document that is given then holds null
outside of defaults and enumerations exactly where a tag is described by null and where a limit is
shown that is no finite number. Such a tag has its name from a source that nothing describes, and
such a limit comes from a constraint with such a bound, each given with a registration. -/
theorem nulls_afterHistory (settings : Settings) (history : List (Classes × Action)) :
    let d := ((ofSettings settings).afterHistory history).document.1
    (d.toJson.HoldsNull ↔
      (∃ t ∈ d.tags, t.description = some none) ∨ ∃ limit, d.Shows limit ∧ limit.HoldsNull) ∧
    (∀ t ∈ d.tags, t.description = some none → ∃ r ∈ asked history, ∃ source ∈ r.sources,
      source.Undescribed settings ∧ (Tag.ofSource settings source).name = t.name) ∧
    ∀ limit, d.Shows limit → limit.HoldsNull → ∃ r ∈ asked history, ∃ c, r.Constrains c ∧
      ∃ bound ∈ c.bounds, bound.isFinite = false ∧ limit = .number bound := by
  intro d
  refine ⟨d.holdsNull_toJson_iff, ?_, ?_⟩
  -- Both invariants say where something comes from: a source here, a constraint below.
  · let Q (name : String) : Prop := ∃ r ∈ asked history, ∃ source ∈ r.sources,
      source.Undescribed settings ∧ (Tag.ofSource settings source).name = name
    have hnulls : ((ofSettings settings).afterHistory history).assembler.NullsNamed settings Q :=
      assembler_afterHistory (fun r hr templates binder _ =>
          keeps_nullsNamed_assemble (fun source hsource hundescribed =>
            ⟨r, hr, source, hsource, hundescribed, rfl⟩) templates)
        (fun _ h => h.finalize) ⟨rfl, fun _ ht => (nomatch ht), fun _ hd => (nomatch hd)⟩
    exact hnulls.finalize.document d (Assembler.document_finalize _)
  · let P (limit : Json) : Prop := ∃ r ∈ asked history, ∃ c, r.Constrains c ∧ c.Sets limit
    have hlimited : ((ofSettings settings).afterHistory history).assembler.Limited P :=
      assembler_afterHistory (fun r hr templates binder hbinder =>
          keeps_limited_assemble (fun c hc limit hsets => ⟨r, hr, c, hc, hsets⟩) hbinder templates)
        (fun _ h => h.finalize)
        ⟨⟨⟨rfl, List.nodup_nil⟩, fun _ h => (nomatch h)⟩, fun _ h => (nomatch h),
          fun _ h => (nomatch h)⟩
    rintro limit ⟨s, hs, hshows⟩ hnull
    have hschema := hlimited.finalize.document d (Assembler.document_finalize _) s hs
    obtain ⟨r, hr, c, hc, hsets⟩ := hschema.of_shows hshows
    exact ⟨r, hr, c, hc, Constraint.exists_bound_of_sets hsets hnull⟩

/-- A shape with a parameter that is held against an infinite bound. -/
def unboundedShape : Classes :=
  ({} : Classes).define
    { name := "Level", body := .record false,
      fields := [
        { name := "level", default := .required, hint := .annotated (.builtin .number)
            [.parameter { location := .query },
              .constraint (.min (.float (.infinite true)) none)] }] }

/-- A route with such a parameter, and with the member of an enumeration for a tag, whose value is
no text. -/
def underMember : RouteDescription where
  method := "get"
  path := .one "/a"
  params := some (.named "Level")
  operation := { tags := [.member "A" (.int 1)] }
  handler := fun _ _ => .ok .null

/-- Its document holds null, for the tag as well as for the bound. -/
theorem nulls_afterHistory_member :
    let history : List (Classes × Action) := [(unboundedShape, .register {} underMember)]
    let d := ((ofSettings {}).afterHistory history).document.1
    d.toJson.HoldsNull ∧
      (∃ r ∈ asked history, ∃ source ∈ r.sources,
        source.Undescribed {} ∧ (Tag.ofSource {} source).name = "A") ∧
      ∃ r ∈ asked history, ∃ c, r.Constrains c ∧
        ∃ bound ∈ c.bounds, bound.isFinite = false ∧
          Json.number (.float (.infinite true)) = .number bound := by
  intro history d
  obtain ⟨hnull, htags, hlimits⟩ := nulls_afterHistory {} history
  have htag : (⟨"A", some none⟩ : Tag) ∈ d.tags := List.mem_cons_self
  have hshown : d.Shows (.number (.float (.infinite true))) :=
    ⟨_, List.mem_cons_self, .own (show Table.get? .minimum _ = some _ from rfl)⟩
  exact ⟨hnull.mpr (Or.inl ⟨_, htag, rfl⟩), htags _ htag rfl, hlimits _ hshown (.number rfl)⟩

end Application

end HttpContract
