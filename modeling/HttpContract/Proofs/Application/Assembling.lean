import HttpContract.Document.Assembler
import HttpContract.Proofs.Schema.Hiding

/-!
# Assembling an operation

An operation is assembled in steps: its tags are added, then its body is described, then its
response, and at last it is attached under its paths. Up to the last step only tags and named
schemas are touched, and neither has a part in the operation that is made.
-/

namespace HttpContract

namespace Tag

/-- A tag of another name is not filled in. -/
theorem filledBy_of_ne {incoming t : Tag} (h : t.name ≠ incoming.name) : filledBy incoming t = t :=
  if_neg fun hsame => h hsame.1

variable {hidden : List String}

/-- Adding a hidden tag leaves those that are not hidden. -/
theorem filter_addTo_of_mem {incoming : Tag} (hincoming : incoming.name ∈ hidden)
    (tags : List Tag) :
    (addTo tags incoming).filter (·.name ∉ hidden) = tags.filter (·.name ∉ hidden) := by
  unfold addTo
  split
  · rw [List.filter_map]
    have hcongr : tags.filter ((fun t => decide (t.name ∉ hidden)) ∘ filledBy incoming) =
        tags.filter (·.name ∉ hidden) :=
      List.filter_congr fun t _ => by rw [Function.comp_apply, name_filledBy]
    rw [hcongr]
    refine (List.map_congr_left fun t ht => filledBy_of_ne fun hsame => ?_).trans (List.map_id _)
    have hshown : t.name ∉ hidden := of_decide_eq_true (List.mem_filter.mp ht).2
    exact hshown (hsame ▸ hincoming)
  · rw [List.filter_append]
    simp [hincoming]

/-- Adding a tag that is not hidden is adding it to those that are not hidden. -/
theorem filter_addTo_of_notMem {incoming : Tag} (hincoming : incoming.name ∉ hidden)
    (tags : List Tag) :
    (addTo tags incoming).filter (·.name ∉ hidden) =
      addTo (tags.filter (·.name ∉ hidden)) incoming := by
  have hany : (tags.filter (·.name ∉ hidden)).any (·.name = incoming.name) =
      tags.any (·.name = incoming.name) := by
    rw [List.any_filter]
    congr 1
    funext t
    by_cases hsame : t.name = incoming.name
    · simp [hsame, hincoming]
    · simp [hsame]
  unfold addTo
  rw [hany]
  split
  · rw [List.filter_map]
    congr 1
    exact List.filter_congr fun t _ => by rw [Function.comp_apply, name_filledBy]
  · rw [List.filter_append]
    simp [hincoming]

/-- Adding hidden tags leaves those that are not hidden. -/
theorem filter_addAll_of_mem {added : List Tag} (hadded : ∀ t ∈ added, t.name ∈ hidden)
    (tags : List Tag) :
    (added.foldl addTo tags).filter (·.name ∉ hidden) = tags.filter (·.name ∉ hidden) := by
  induction added generalizing tags with
  | nil => rfl
  | cons t rest ih =>
    obtain ⟨ht, hrest⟩ := List.forall_mem_cons.mp hadded
    rw [List.foldl_cons, ih hrest, filter_addTo_of_mem ht]

/-- Tags that differ in hidden ones only still do so with the same ones added. -/
theorem filter_addAll {tags other : List Tag}
    (h : tags.filter (·.name ∉ hidden) = other.filter (·.name ∉ hidden)) (added : List Tag) :
    (added.foldl addTo tags).filter (·.name ∉ hidden) =
      (added.foldl addTo other).filter (·.name ∉ hidden) := by
  induction added generalizing tags other with
  | nil => exact h
  | cons t rest ih =>
    refine ih ?_
    by_cases ht : t.name ∈ hidden
    · rw [filter_addTo_of_mem ht, filter_addTo_of_mem ht, h]
    · rw [filter_addTo_of_notMem ht, filter_addTo_of_notMem ht, h]

end Tag

namespace Document

/-- A document without its tags. -/
def untagged (d : Document) : Document := { d with tags := [] }

/-- A document without its tags and its named schemas. -/
def core (d : Document) : Document := { d with tags := [], schemas := [] }

/-- A document without the tags and the named schemas of certain names. -/
def without (tags names : List String) (d : Document) : Document :=
  { d with
    tags := d.tags.filter (·.name ∉ tags)
    schemas := d.schemas.filter (·.1 ∉ names) }

end Document

namespace Assembler

/-- An assembler without its tags. -/
def untagged (a : Assembler) : Assembler :=
  { a with tags := [], document := a.document.map Document.untagged }

/-- An assembler without its tags and its builder. -/
def shell (a : Assembler) : Assembler := { a.untagged with builder := {} }

/-- An assembler without its tags and its named schemas, also those of its document. -/
def core (a : Assembler) : Assembler :=
  { a with tags := [], builder := {}, document := a.document.map Document.core }

/-- What has the same shell is the same but for tags and named schemas. -/
theorem core_eq_of_shell_eq {a b : Assembler} (h : a.shell = b.shell) : a.core = b.core := by
  have hcore (a : Assembler) : a.shell.core = a.core := by
    simp only [core, shell, untagged, Option.map_map]
    rfl
  rw [← hcore a, ← hcore b, h]

/-- The description of a body, none when there is no body to describe. -/
def bodyOf (C : Classes) (body : Option Hint) : Assemble (Option RequestBody) :=
  match body with
  | none => pure none
  | some body => requestBody C body >>= fun described => pure (some described)

/-- The operation made of its parts. -/
def operationOf (parameters : List Parameter) (spec : OperationSpec) (tags : List String)
    (requestBody : Option RequestBody) (response : Response) : Operation where
  tags
  summary := spec.summary.bind Parameter.spoken
  description := spec.description.bind Parameter.spoken
  operationId := spec.operationId.bind Parameter.spoken
  deprecated := spec.deprecated
  parameters
  requestBody
  response

variable {C : Classes}

/-- Tags, body and response of an operation are made in this order. -/
theorem operation_eq (C : Classes) (parameters : List Parameter) (spec : OperationSpec) :
    operation C parameters spec = do
      let tags ← modifyGet (addTags spec.tags)
      let requestBody ← bodyOf C (Hint.asking spec.body)
      let response ← response C (Hint.asking spec.response)
      return operationOf parameters spec tags requestBody response := by
  unfold operation bodyOf
  cases Hint.asking spec.body with
  | none => rfl
  | some body => simp only [bind_assoc, pure_bind]; rfl

/-- A step of making schemas changes the builder only. -/
theorem run_building {α : Type} (step : BuildSchema α) (a : Assembler) :
    (building step).run a = match step.run a.builder with
      | .ok result builder => .ok result { a with builder }
      | .error e builder => .error e { a with builder } := rfl

/-- A step of making schemas ends with the builder that it ends with, all else being as it was. -/
theorem ends_building {α : Type} {step : BuildSchema α} {a after : Assembler}
    (h : Ends (building step) a after) :
    ∃ builder, Ends step a.builder builder ∧ { a with builder } = after := by
  rw [Ends, run_building] at h
  split at h
  · rename_i result builder hrun
    rcases h with ⟨_, ⟨⟩⟩ | ⟨_, ⟨⟩⟩
    exact ⟨builder, Or.inl ⟨result, hrun⟩, rfl⟩
  · rename_i e builder hrun
    rcases h with ⟨_, ⟨⟩⟩ | ⟨_, ⟨⟩⟩
    exact ⟨builder, Or.inr ⟨e, hrun⟩, rfl⟩

/-- Names with that of one more tag. -/
def withName (settings : Settings) (names : List String) (source : TagSource) : List String :=
  let name := (Tag.ofSource settings source).name
  if names.contains name then names else names ++ [name]

/-- Adding one more tag to names and an assembler. -/
def addNamed (made : List String × Assembler) (source : TagSource) : List String × Assembler :=
  (withName made.2.settings made.1 source, (made.2.addTag source).2)

/-- Adding tags one after the other changes tags only, and gives them the names that the settings
have for them. -/
theorem foldl_addNamed (sources : List TagSource) (names : List String) (a : Assembler) :
    (sources.foldl addNamed (names, a)).1 = sources.foldl (withName a.settings) names ∧
      (sources.foldl addNamed (names, a)).2.untagged = a.untagged ∧
      (sources.foldl addNamed (names, a)).2.tags =
        (sources.map (Tag.ofSource a.settings)).foldl Tag.addTo a.tags := by
  induction sources generalizing names a with
  | nil => exact ⟨rfl, rfl, rfl⟩
  | cons source rest ih =>
    have htag : (a.addTag source).2.untagged = a.untagged := by
      simp only [addTag, untagged, Option.map_map]
      rfl
    obtain ⟨hnames, huntagged, htags⟩ := ih (withName a.settings names source) (a.addTag source).2
    exact ⟨hnames, huntagged.trans htag, htags⟩

/-- Adding tags changes tags only, and gives them the names that the settings have for them. -/
theorem addTags_eq (sources : List TagSource) (a : Assembler) :
    (addTags sources a).1 = sources.foldl (withName a.settings) [] ∧
      (addTags sources a).2.untagged = a.untagged ∧
      (addTags sources a).2.tags = (sources.map (Tag.ofSource a.settings)).foldl Tag.addTo a.tags :=
  foldl_addNamed sources [] a

/-- Adding tags leaves the shell as it is. -/
theorem shell_addTags (sources : List TagSource) (a : Assembler) :
    (addTags sources a).2.shell = a.shell :=
  congrArg (fun c : Assembler => { c with builder := {} }) (addTags_eq sources a).2.1

/-- Adding tags leaves the builder as it is. -/
theorem builder_addTags (sources : List TagSource) (a : Assembler) :
    (addTags sources a).2.builder = a.builder :=
  congrArg (·.builder) (addTags_eq sources a).2.1

/-- What a step of describing an operation with certain tags may be. -/
inductive Step (C : Classes) (sources : List TagSource) : {α : Type} → Assemble α → Prop
  | pure {α : Type} (a : α) : Step C sources (Pure.pure a)
  | building {α : Type} {step : BuildSchema α} (h : SchemaBuilder.Step C step) :
      Step C sources (building step)
  | addTags : Step C sources (modifyGet (addTags sources))
  | bind {α β : Type} {m : Assemble α} {k : α → Assemble β} (hm : Step C sources m)
      (hk : ∀ a, Step C sources (k a)) : Step C sources (m >>= k)

namespace Step

/-- The parameters of an operation are made in steps. -/
theorem parameters (C : Classes) (sources : List TagSource) (binder : Option Binder) :
    Step C sources (Assembler.parameters C binder) := by
  cases binder with
  | none => exact .pure _
  | some b => exact .building (SchemaBuilder.Step.ofEach C b.fields)

/-- The body and the response of an operation are described in steps that add no tags. -/
theorem bodyAndResponse (C : Classes) (sources : List TagSource) (parameters : List Parameter)
    (spec : OperationSpec) (tags : List String) :
    Step C sources (do
      let requestBody ← bodyOf C (Hint.asking spec.body)
      let response ← response C (Hint.asking spec.response)
      return operationOf parameters spec tags requestBody response) := by
  refine Step.bind ?_ fun body => Step.bind ?_ fun response => .pure _
  · cases Hint.asking spec.body with
    | none => exact .pure _
    | some body =>
      refine Step.bind ?_ fun _ => .pure _
      exact (Step.building (SchemaBuilder.Step.ofHint C body)).bind fun _ => .pure _
  · cases Hint.asking spec.response with
    | none => exact .pure _
    | some hint =>
      exact (Step.building (SchemaBuilder.Step.ofHint C hint)).bind fun _ => .pure _

/-- An operation is made in steps. -/
theorem operation (C : Classes) (parameters : List Parameter) (spec : OperationSpec) :
    Step C spec.tags (operation C parameters spec) := by
  rw [operation_eq]
  exact Step.addTags.bind fun tags => bodyAndResponse C spec.tags parameters spec tags

variable {C : Classes} {sources : List TagSource} {α : Type} {m : Assemble α}

/-- What making schemas and adding the tags leave true is true throughout. -/
theorem keeps {I : Assembler → Prop}
    (hbuilding : ∀ {β : Type} {step : BuildSchema β}, SchemaBuilder.Step C step →
      ∀ {a : Assembler} {builder : SchemaBuilder}, Ends step a.builder builder → I a →
        I { a with builder })
    (haddTags : ∀ a, I a → I (Assembler.addTags sources a).2) (h : Step C sources m) :
    Keeps I m := by
  induction h with
  | pure a => exact .pure a
  | bind _ _ ihm ihk => exact ihm.bind ihk
  | addTags =>
    rintro a after (⟨_, ⟨⟩⟩ | ⟨_, ⟨⟩⟩) ha
    exact haddTags a ha
  | building hstep =>
    intro a after hends ha
    obtain ⟨builder, hbuilt, rfl⟩ := ends_building hends
    exact hbuilding hstep hbuilt ha

/-- Of an assembler everything stays but its tags and its builder. -/
theorem shell_eq (h : Step C sources m) {a after : Assembler} (hends : Ends m a after) :
    after.shell = a.shell := by
  refine h.keeps (I := fun b => b.shell = a.shell) (fun _ _ _ _ hb => hb) (fun b hb => ?_) hends rfl
  exact (shell_addTags sources b).trans hb

/-- What is invariant of the builder is kept. -/
theorem keeps_builder {I : SchemaBuilder → Prop} (hI : SchemaBuilder.Invariant C I)
    (h : Step C sources m) : Keeps (fun a => I a.builder) m := by
  refine h.keeps (fun hstep _ _ hends ha => hstep.keeps hI hends ha) fun a ha => ?_
  rwa [builder_addTags]

/-- The result of a step depends on the settings only. -/
theorem same (h : Step C sources m) {a b a' b' : Assembler} {x y : α}
    (hsettings : a.settings = b.settings) (hrun : m.run a = .ok x a') (hrun' : m.run b = .ok y b') :
    x = y := by
  induction h generalizing a b a' b' with
  | pure x =>
    cases hrun
    cases hrun'
    rfl
  | addTags =>
    cases hrun
    cases hrun'
    exact (addTags_eq sources a).1.trans
      ((congrArg (fun s => sources.foldl (withName s) []) hsettings).trans
        (addTags_eq sources b).1.symm)
  | building hstep =>
    rw [run_building] at hrun hrun'
    split at hrun
    · rename_i hfirst
      cases hrun
      split at hrun'
      · rename_i hsecond
        cases hrun'
        exact hstep.same hfirst hsecond
      · cases hrun'
    · cases hrun
  | bind hm hk ihm ihk =>
    obtain ⟨z, between, hfirst, hrun⟩ := run_bind_eq_ok_iff.mp hrun
    obtain ⟨z', between', hfirst', hrun'⟩ := run_bind_eq_ok_iff.mp hrun'
    obtain rfl := ihm hsettings hfirst hfirst'
    have hbetween : between.settings = a.settings :=
      congrArg (·.settings) (hm.shell_eq (Or.inl ⟨z, hfirst⟩))
    have hbetween' : between'.settings = b.settings :=
      congrArg (·.settings) (hm.shell_eq (Or.inl ⟨z, hfirst'⟩))
    exact ihk z (hbetween.trans (hsettings.trans hbetween'.symm)) hrun hrun'

/-- Tags that are not among those of the step stay as they are. -/
theorem filter_tags (h : Step C sources m) {a after : Assembler} (hends : Ends m a after)
    {hidden : List String} (hhidden : ∀ s ∈ sources, (Tag.ofSource a.settings s).name ∈ hidden) :
    after.tags.filter (·.name ∉ hidden) = a.tags.filter (·.name ∉ hidden) := by
  refine (h.keeps (I := fun b => b.settings = a.settings ∧
      b.tags.filter (·.name ∉ hidden) = a.tags.filter (·.name ∉ hidden))
    (fun _ _ _ _ hb => hb) ?_ hends ⟨rfl, rfl⟩).2
  rintro b ⟨hsettings, htags⟩
  obtain ⟨_, huntagged, hadded⟩ := addTags_eq sources b
  refine ⟨(congrArg (·.settings) huntagged).trans hsettings, ?_⟩
  rw [hadded, hsettings, Tag.filter_addAll_of_mem, htags]
  intro t ht
  obtain ⟨s, hs, rfl⟩ := List.mem_map.mp ht
  exact hhidden s hs

end Step

/-- Whether an assembler is another one that holds further tags and names, of those that are hidden,
and both have no document yet. -/
structure Hides (C : Classes) (tags names : List String) (a b : Assembler) : Prop where
  builder : SchemaBuilder.Hides C names a.builder b.builder
  shell : a.shell = b.shell
  tags : a.tags.filter (·.name ∉ tags) = b.tags.filter (·.name ∉ tags)
  collecting : a.document = none

/-- Whether the builder of an assembler has reserved one of several names. -/
def Touches (names : List String) (a : Assembler) : Prop := a.builder.Touches names

variable {tags names : List String} {a b : Assembler}

/-- The other one of two assemblers that differ in what is hidden has no document either. -/
theorem Hides.otherCollecting (h : Hides C tags names a b) : b.document = none := by
  have hdocument : a.document.map Document.untagged = b.document.map Document.untagged :=
    congrArg (·.document) h.shell
  rw [h.collecting] at hdocument
  exact Option.map_eq_none_iff.mp hdocument.symm

/-- Assemblers that differ in what is hidden give the same names to tags, and still differ in what
is hidden. -/
theorem Hides.addTags (h : Hides C tags names a b) (sources : List TagSource) :
    (addTags sources a).1 = (addTags sources b).1 ∧
      Hides C tags names (addTags sources a).2 (addTags sources b).2 := by
  have hsettings : a.settings = b.settings := congrArg (·.settings) h.shell
  obtain ⟨hnames, huntagged, htags⟩ := addTags_eq sources a
  obtain ⟨hnames', _, htags'⟩ := addTags_eq sources b
  constructor
  · rw [hnames, hnames', hsettings]
  · constructor
    · rw [builder_addTags, builder_addTags]
      exact h.builder
    · rw [shell_addTags, shell_addTags, h.shell]
    · rw [htags, htags', hsettings]
      exact Tag.filter_addAll h.tags _
    · simpa [untagged, h.collecting] using congrArg (·.document) huntagged

/-- Assemblers that differ in what is hidden still do so with builders that do. -/
theorem Hides.building (h : Hides C tags names a b) {builder builder' : SchemaBuilder}
    (hbuilder : SchemaBuilder.Hides C names builder builder') :
    Hides C tags names { a with builder } { b with builder := builder' } :=
  ⟨hbuilder, h.shell, h.tags, h.collecting⟩

/-- Every step comes to the same from assemblers that differ in what is hidden, unless it reserves a
hidden name itself. -/
theorem Step.follows {sources : List TagSource} {α : Type} {m : Assemble α}
    (h : Step C sources m) (tags names : List String) :
    Follows (Hides C tags names) (Touches names) m := by
  have hstays {β : Type} {m : Assemble β} (h : Step C sources m) : Keeps (Touches names) m :=
    h.keeps_builder (SchemaBuilder.invariant_touches C names)
  induction h with
  | pure a => exact .pure a
  | bind _ _ ihm ihk => exact ihm.bind ihk
  | addTags =>
    refine ⟨hstays .addTags, fun {a b _} h _ _ => ?_⟩
    obtain ⟨hnames, hafter⟩ := h.addTags sources
    exact agree_ok_iff.mpr ⟨_, congrArg (EStateM.Result.ok · _) hnames.symm, hafter⟩
  | building hstep =>
    refine ⟨hstays (.building hstep), fun {a b a'} h hends hfree => ?_⟩
    rw [Ends, run_building] at hends
    rw [run_building, run_building]
    split at hends
    · rename_i x builder hrun
      rcases hends with ⟨_, ⟨⟩⟩ | ⟨_, ⟨⟩⟩
      obtain ⟨builder', hrun', hbuilder⟩ := (hstep.follows names).ok h.builder hrun hfree
      rw [hrun']
      exact .ok x (h.building hbuilder)
    · rename_i e builder hrun
      rcases hends with ⟨_, ⟨⟩⟩ | ⟨_, ⟨⟩⟩
      obtain ⟨builder', hrun', hbuilder⟩ := (hstep.follows names).error h.builder hrun hfree
      rw [hrun']
      exact .error e (h.building hbuilder)

/-- The operations that one operation becomes under several paths. -/
def attached (paths : List String) (made : Operation) : List Operation :=
  (List.range paths.length).map (underAlias made)

/-- The paths of a document with one operation attached under several of them. -/
def withOperation (paths : List String) (method : String) (made : Operation)
    (table : Table String PathItem) : Table String PathItem :=
  (paths.zip (attached paths made)).foldl
    (fun table (path, made) => setPath path (lowerText method) made table) table

/-- An operation is attached under all its paths at once, or nothing is changed. -/
theorem run_addOperation (paths : List String) (method : String) (made : Operation)
    (a : Assembler) :
    (addOperation paths method made).run a =
      if a.document.isSome then
        .error (.configuration (.closed s!"operation {upperText method} {textList paths}")) a
      else
        match paths.find? fun path =>
            (Table.get? (lowerText method) ((Table.get? path a.paths).getD [])).isSome with
        | some path =>
          .error (.configuration (.duplicateRoute (upperText (lowerText method)) path)) a
        | none =>
          .ok (attached paths made)
            { a with paths := withOperation paths method made a.paths } := by
  unfold addOperation
  rw [EStateM.run_bind, EStateM.run_get]
  dsimp only
  by_cases hdocument : a.document.isSome = true
  · rw [if_pos hdocument, if_pos hdocument]
    rfl
  · rw [if_neg hdocument, if_neg hdocument]
    unfold item
    cases paths.find? fun path =>
        (Table.get? (lowerText method) ((Table.get? path a.paths).getD [])).isSome with
    | some path => rfl
    | none => rfl

section Attaching

variable {paths : List String} {method : String} {made : Operation} {after : Assembler}

/-- An operation that is attached changes the paths only, and there is no document yet. -/
theorem addOperation_eq_ok {added : List Operation}
    (h : (addOperation paths method made).run a = .ok added after) :
    a.document = none ∧ { a with paths := withOperation paths method made a.paths } = after := by
  rw [run_addOperation] at h
  split at h
  · cases h
  · rename_i hdocument
    split at h
    · cases h
    · cases h
      exact ⟨by simpa using hdocument, rfl⟩

/-- Where an operation cannot be attached, nothing is changed. -/
theorem eq_of_addOperation_eq_error {e : Failure}
    (h : (addOperation paths method made).run a = .error e after) : after = a := by
  rw [run_addOperation] at h
  split at h
  · cases h
    rfl
  · split at h
    · cases h
      rfl
    · cases h

/-- Attaching an operation changes nothing or the paths only. -/
theorem ends_addOperation (h : Ends (addOperation paths method made) a after) :
    a = after ∨ { a with paths := withOperation paths method made a.paths } = after := by
  rcases h with ⟨added, h⟩ | ⟨e, h⟩
  · exact Or.inr (addOperation_eq_ok h).2
  · exact Or.inl (eq_of_addOperation_eq_error h).symm

/-- Attaching an operation leaves the builder as it is. -/
theorem builder_addOperation (h : Ends (addOperation paths method made) a after) :
    after.builder = a.builder := by
  rcases ends_addOperation h with rfl | rfl <;> rfl

/-- Attaching an operation comes to the same from assemblers that differ in what is hidden. -/
theorem follows_addOperation (C : Classes) (tags names paths : List String) (method : String)
    (made : Operation) :
    Follows (Hides C tags names) (Touches names) (addOperation paths method made) := by
  refine ⟨fun a after hends h => ?_, fun {a b a'} h _ _ => ?_⟩
  · rw [Touches, builder_addOperation hends]
    exact h
  · have hpaths : a.paths = b.paths := congrArg (·.paths) h.shell
    have hcollecting : ¬a.document.isSome = true := by simp [h.collecting]
    have hother : ¬b.document.isSome = true := by simp [h.otherCollecting]
    rw [run_addOperation, run_addOperation, if_neg hcollecting, if_neg hother, hpaths]
    split
    · exact .error _ h
    · refine .ok _ ⟨h.builder, ?_, h.tags, h.collecting⟩
      exact congrArg (fun c : Assembler =>
        { c with paths := withOperation paths method made b.paths }) h.shell

end Attaching

/-- Without a document the present one is given, and schemas are frozen. -/
theorem finalize_of_none (h : a.document = none) :
    a.finalize = (a.present,
      { a with
        builder := { a.builder with registry := a.builder.registry.freeze }
        document := some a.present }) := by
  rw [finalize, h]

/-- The document that there is is given again. -/
theorem finalize_of_some {d : Document} (h : a.document = some d) : a.finalize = (d, a) := by
  rw [finalize, h]

/-- The documents of assemblers that differ in tags and named schemas only do so too, and leave them
so. -/
theorem core_finalize (h : a.core = b.core) :
    a.finalize.1.core = b.finalize.1.core ∧ a.finalize.2.core = b.finalize.2.core := by
  have hdocument : a.document.map Document.core = b.document.map Document.core :=
    congrArg (·.document) h
  cases ha : a.document with
  | some d =>
    rw [ha, Option.map_some] at hdocument
    obtain ⟨d', hb, hd⟩ := Option.map_eq_some_iff.mp hdocument.symm
    rw [finalize_of_some ha, finalize_of_some hb]
    exact ⟨hd.symm, h⟩
  | none =>
    rw [ha, Option.map_none] at hdocument
    rw [finalize_of_none ha, finalize_of_none (Option.map_eq_none_iff.mp hdocument.symm)]
    have hpresent : a.core.present.core = b.core.present.core := by rw [h]
    have hafter : { a.core with document := some a.core.present.core } =
        { b.core with document := some b.core.present.core } := by rw [h]
    exact ⟨hpresent, hafter⟩

/-- The documents of assemblers that differ in what is hidden do so too. -/
theorem Hides.present (h : Hides C tags names a b) :
    a.present.without tags names = b.present.without tags names := by
  have hsettings : a.settings = b.settings := congrArg (·.settings) h.shell
  have hpaths : a.paths = b.paths := congrArg (·.paths) h.shell
  simp only [Assembler.present, Document.without, hsettings, hpaths, h.tags, h.builder.schemas]

end Assembler

end HttpContract
