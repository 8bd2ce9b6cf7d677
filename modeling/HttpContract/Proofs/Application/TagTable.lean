import HttpContract.Proofs.Application.Finished
import HttpContract.Proofs.Application.AbsentAttributes

/-!
# The table of tags

Tags are given one by one, and with every operation that is described. The table of the document
lists each name that was given once, where it was given first, with the first description that came
with it. The tags of an operation are names of this table.
-/

namespace HttpContract

namespace TagSource

/-- The name under which a source is listed. -/
def label : TagSource → String
  | .name plain => plain
  | .tag t => t.name
  | .member key _ => key

/-- The description that a source gives. A tag is described as it says, a plain name by the
settings, and a member by its value if that is a text that is not empty, or else by the settings. -/
def description? (settings : Settings) : TagSource → Option String
  | .name plain => Tag.settled? settings plain
  | .tag t => t.text?
  | .member key value =>
    (value.asText?.bind Parameter.spoken).or (Tag.settled? settings key)

/-- The first description that sources of a name give. -/
def firstDescription? (settings : Settings) (given : List TagSource) (name : String) :
    Option String :=
  (given.filter (·.label = name)).findSome? (·.description? settings)

/-- One more source describes a name only if it is of this name and no source before describes
it. -/
theorem firstDescription?_concat (settings : Settings) (given : List TagSource)
    (source : TagSource) (name : String) :
    firstDescription? settings (given ++ [source]) name =
      (firstDescription? settings given name).or
        (if source.label = name then source.description? settings else none) := by
  unfold firstDescription?
  rw [List.filter_append, List.findSome?_append]
  by_cases hname : source.label = name <;> simp [hname]

/-- A name that was not given has no description. -/
theorem firstDescription?_of_notMem {settings : Settings} {given : List TagSource} {name : String}
    (h : name ∉ given.map label) : firstDescription? settings given name = none := by
  have hnone : given.filter (·.label = name) = [] := by
    refine List.filter_eq_nil_iff.mpr fun source hsource => ?_
    rw [decide_eq_true_eq]
    exact fun hname => h (hname ▸ List.mem_map_of_mem hsource)
  rw [firstDescription?, hnone, List.findSome?_nil]

end TagSource

/-- One more element stands at the end, unless it is there. -/
theorem eraseDups_concat (names : List String) (name : String) :
    (names ++ [name]).eraseDups =
      if name ∈ names then names.eraseDups else names.eraseDups ++ [name] := by
  rw [List.eraseDups_append]
  by_cases h : name ∈ names
  · simp [List.removeAll, h]
  · simp [List.removeAll, h, List.eraseDups_cons]

namespace Tag

/-- The tag of a source has its name. -/
@[simp] theorem name_ofSource (settings : Settings) (source : TagSource) :
    (ofSource settings source).name = source.label := by
  cases source with
  | name name => rfl
  | tag t => rfl
  | member name value =>
    rw [ofSource]
    cases value.asText? <;> rfl

/-- The tag of a source has the description that the source gives. -/
@[simp] theorem text?_ofSource (settings : Settings) (source : TagSource) :
    (ofSource settings source).text? = source.description? settings := by
  cases source with
  | tag t => rfl
  | name name =>
    rw [ofSource, text?, TagSource.description?]
    cases settled? settings name <;> rfl
  | member name value =>
    rw [ofSource, TagSource.description?]
    cases value.asText? with
    | none => rfl
    | some text =>
      rw [Option.bind_some, Parameter.spoken]
      dsimp only
      by_cases hempty : text.isEmpty = true
      · rw [if_pos hempty, if_pos hempty]
        rfl
      · rw [if_neg hempty, if_neg hempty]
        rfl

/-- Whether tags are the table of given sources: every name once, where it was given first, with the
first description that was given. -/
structure Tabulates (settings : Settings) (given : List TagSource) (tags : List Tag) : Prop where
  names : tags.map (·.name) = (given.map TagSource.label).eraseDups
  described : ∀ t ∈ tags, t.text? = TagSource.firstDescription? settings given t.name

variable {settings : Settings} {given : List TagSource} {tags : List Tag}

/-- Without sources there are no tags. -/
theorem tabulates_nil (settings : Settings) : Tabulates settings [] [] :=
  ⟨rfl, fun _ ht => (nomatch ht)⟩

/-- The names of a table are those that were given. -/
theorem Tabulates.mem_names (h : Tabulates settings given tags) {name : String} :
    name ∈ tags.map (·.name) ↔ name ∈ given.map TagSource.label := by
  rw [h.names, List.mem_eraseDups]

/-- The tag of one more source is added to the table. -/
theorem Tabulates.addTo (h : Tabulates settings given tags) (source : TagSource) :
    Tabulates settings (given ++ [source]) (addTo tags (ofSource settings source)) := by
  constructor
  · simp only [names_addTo, h.names, name_ofSource, List.mem_eraseDups, List.map_append,
      List.map_singleton, eraseDups_concat]
  · intro t ht
    rw [TagSource.firstDescription?_concat]
    unfold Tag.addTo at ht
    split at ht
    · -- The name is known, so its tag is filled in.
      obtain ⟨before, hbefore, rfl⟩ := List.mem_map.mp ht
      rw [text?_filledBy, name_filledBy, h.described before hbefore, name_ofSource,
        text?_ofSource]
    · rename_i hnew
      have hnew : source.label ∉ tags.map (·.name) := by
        simpa using hnew
      obtain hold | hadded := List.mem_append.mp ht
      · have hother : source.label ≠ t.name := fun hname =>
          hnew (hname ▸ List.mem_map_of_mem hold)
        rw [h.described t hold, if_neg hother, Option.or_none]
      · obtain rfl := List.mem_singleton.mp hadded
        rw [name_ofSource, if_pos rfl, text?_ofSource,
          TagSource.firstDescription?_of_notMem fun hmem => hnew (h.mem_names.mpr hmem),
          Option.none_or]

/-- The tags of several sources are added to the table. -/
theorem Tabulates.addAll (h : Tabulates settings given tags) (sources : List TagSource) :
    Tabulates settings (given ++ sources)
      ((sources.map (ofSource settings)).foldl Tag.addTo tags) := by
  induction sources generalizing given tags with
  | nil =>
    rw [List.append_nil]
    exact h
  | cons source rest ih =>
    have hrest := ih (h.addTo source)
    rwa [List.append_assoc, List.singleton_append] at hrest

end Tag

namespace Assembler

/-- The names of sources that are added one by one are listed once, where they come first. -/
theorem foldl_withName (settings : Settings) (names : List String) (sources : List TagSource) :
    sources.foldl (withName settings) names.eraseDups =
      (names ++ sources.map TagSource.label).eraseDups := by
  induction sources generalizing names with
  | nil => rw [List.foldl_nil, List.map_nil, List.append_nil]
  | cons source rest ih =>
    have hfirst : withName settings names.eraseDups source =
        (names ++ [source.label]).eraseDups := by
      rw [withName, Tag.name_ofSource, eraseDups_concat]
      simp only [List.contains_iff_mem, List.mem_eraseDups]
    rw [List.foldl_cons, hfirst, ih, List.append_assoc, List.map_cons, List.singleton_append]

/-- Whether an assembler that has not made its document yet has the table of given sources, and only
operations with tags of this table, each of them once. -/
structure Tagged (settings : Settings) (given : List TagSource) (a : Assembler) : Prop where
  settings_eq : a.settings = settings
  unmade : a.document = none
  table : Tag.Tabulates settings given a.tags
  operations : ∀ item ∈ a.paths, ∀ entry ∈ item.2,
    entry.2.tags.Nodup ∧ entry.2.tags ⊆ given.map TagSource.label

variable {C : Classes} {settings : Settings} {given : List TagSource} {a after : Assembler}

/-- An assembler that was just made has an empty table. -/
theorem tagged_new (settings : Settings) : Tagged settings [] { settings } :=
  ⟨rfl, rfl, Tag.tabulates_nil settings, fun _ hitem => (nomatch hitem)⟩

/-- Tags that are added come into the table. -/
theorem Tagged.addTags (h : a.Tagged settings given) (sources : List TagSource) :
    (addTags sources a).2.Tagged settings (given ++ sources) := by
  obtain ⟨_, huntagged, htags⟩ := addTags_eq sources a
  have hdocument : (Assembler.addTags sources a).2.document.map Document.untagged =
      a.document.map Document.untagged := congrArg (·.document) huntagged
  have hpaths : (Assembler.addTags sources a).2.paths = a.paths := congrArg (·.paths) huntagged
  refine ⟨(congrArg (·.settings) huntagged).trans h.settings_eq, ?_, ?_, fun item hitem => ?_⟩
  · rw [h.unmade, Option.map_none] at hdocument
    exact Option.map_eq_none_iff.mp hdocument
  · rw [htags, h.settings_eq]
    exact h.table.addAll sources
  · rw [hpaths] at hitem
    intro entry hentry
    obtain ⟨hnodup, hgiven⟩ := h.operations item hitem entry hentry
    refine ⟨hnodup, fun name hname => ?_⟩
    rw [List.map_append]
    exact List.mem_append_left _ (hgiven hname)

/-- Steps that add no tags leave the table as it is. -/
theorem Step.tagged {α : Type} {m : Assemble α} (hstep : Step C [] m) :
    Keeps (Tagged settings given) m := by
  refine hstep.keeps (fun _ _ _ _ h => ⟨h.settings_eq, h.unmade, h.table, h.operations⟩) ?_
  intro a h
  have hadded := h.addTags []
  rwa [List.append_nil] at hadded

/-- An operation adds its tags to the table, and names each of them once. -/
theorem Tagged.operation {parameters : List Parameter} {spec : OperationSpec} {made : Operation}
    (h : a.Tagged settings given)
    (hrun : (operation C parameters spec).run a = .ok made after) :
    after.Tagged settings (given ++ spec.tags) ∧
      made.tags = (spec.tags.map TagSource.label).eraseDups := by
  rw [operation_eq] at hrun
  -- The tags come in first; describing the body and the response adds none.
  obtain ⟨tags, between, hadded, hrun⟩ := run_bind_eq_ok_iff.mp hrun
  cases hadded
  refine ⟨(Step.bodyAndResponse C [] parameters spec _).tagged (Or.inl ⟨made, hrun⟩)
    (h.addTags spec.tags), ?_⟩
  obtain ⟨_, _, _, hrun⟩ := run_bind_eq_ok_iff.mp hrun
  obtain ⟨_, _, _, hrun⟩ := run_bind_eq_ok_iff.mp hrun
  obtain ⟨rfl, _⟩ := run_pure_eq_ok_iff.mp hrun
  exact (addTags_eq spec.tags a).1.trans (foldl_withName a.settings [] spec.tags)

/-- An operation with tags of the table may be attached. -/
theorem Tagged.addOperation {paths : List String} {method : String} {made : Operation}
    {added : List Operation} (h : a.Tagged settings given) (hnodup : made.tags.Nodup)
    (hgiven : made.tags ⊆ given.map TagSource.label)
    (hrun : (addOperation paths method made).run a = .ok added after) :
    after.Tagged settings given := by
  obtain ⟨_, rfl⟩ := addOperation_eq_ok hrun
  refine ⟨h.settings_eq, h.unmade, h.table, fun item hitem entry hentry => ?_⟩
  obtain ⟨index, hshown⟩ | ⟨before, hbefore, hmem⟩ := mem_withOperation hitem hentry
  · have htags : entry.2.tags = made.tags := by
      rw [hshown, underAlias]
      split <;> rfl
    rw [htags]
    exact ⟨hnodup, hgiven⟩
  · exact h.operations before hbefore entry hmem

/-- An operation that is described and attached brings its tags into the table. -/
theorem Tagged.attach {parameters : List Parameter} {spec : OperationSpec} {paths : List String}
    {method : String} {added : List Operation} (h : a.Tagged settings given)
    (hrun : (Assembler.operation C parameters spec >>= Assembler.addOperation paths method).run a =
      .ok added after) : after.Tagged settings (given ++ spec.tags) := by
  obtain ⟨made, between, hmade, hrun⟩ := run_bind_eq_ok_iff.mp hrun
  obtain ⟨hbetween, htags⟩ := h.operation hmade
  refine hbetween.addOperation ?_ (fun name hname => ?_) hrun
  · rw [htags]
    exact Classes.nodup_eraseDups _
  · rw [htags, List.mem_eraseDups] at hname
    rw [List.map_append]
    exact List.mem_append_right _ hname

end Assembler

namespace Application

/-- A call that gives tags. -/
inductive Call where
  /-- A tag is added. -/
  | tag (source : TagSource)
  /-- A route is registered. -/
  | route (group : RouteGroup) (spec : RouteDescription)
  /-- An operation is described and attached under paths, without a route. -/
  | operation (paths : List String) (method : String) (parameters : List Parameter)
      (spec : OperationSpec)

namespace Call

/-- The tags that a call gives, in the order in which it gives them. -/
def sources : Call → List TagSource
  | .tag source => [source]
  | .route group spec => group.tags ++ spec.operation.tags
  | .operation _ _ _ spec => spec.tags

/-- What a call does. -/
def perform (C : Classes) : Call → Register Unit
  | .tag source => modify fun app => { app with assembler := (app.assembler.addTag source).2 }
  | .route group spec => register C group spec
  | .operation paths method parameters spec => do
    let _ ← assembling
      (Assembler.operation C parameters spec >>= Assembler.addOperation paths method)

/-- Several calls in a row, each of them with the classes that are described by then. -/
def performAll : List (Classes × Call) → Register Unit
  | [] => pure ()
  | (C, call) :: rest => do
    call.perform C
    performAll rest

variable {settings : Settings} {given : List TagSource} {app after : Application}

/-- A call that succeeds brings its tags into the table. -/
theorem tagged_perform {C : Classes} {call : Call} (h : app.assembler.Tagged settings given)
    (hrun : (call.perform C).run app = .ok () after) :
    after.assembler.Tagged settings (given ++ call.sources) := by
  cases call with
  | tag source =>
    cases hrun
    exact h.addTags [source]
  | operation paths method parameters spec =>
    obtain ⟨added, between, hrun, hdone⟩ := run_bind_eq_ok_iff.mp hrun
    cases hdone
    rw [run_assembling] at hrun
    split at hrun
    · rename_i hattached
      cases hrun
      exact h.attach hattached
    · cases hrun
  | route group spec =>
    obtain ⟨templates, binder, added, assembler, _, hassembled, rfl⟩ := run_register_eq_ok hrun
    obtain ⟨made, between, hdescribed, hattached⟩ := run_bind_eq_ok_iff.mp hassembled
    obtain ⟨parameters, start, hparameters, hmade⟩ := run_bind_eq_ok_iff.mp hdescribed
    have hstart : start.Tagged settings given :=
      (Assembler.Step.parameters C [] binder).tagged (Or.inl ⟨parameters, hparameters⟩) h
    exact hstart.attach (run_bind_eq_ok_iff.mpr ⟨made, between, hmade, hattached⟩)

/-- Calls that succeed bring their tags into the table. -/
theorem tagged_performAll {calls : List (Classes × Call)}
    (h : app.assembler.Tagged settings given) (hrun : (performAll calls).run app = .ok () after) :
    after.assembler.Tagged settings (given ++ calls.flatMap (·.2.sources)) := by
  induction calls generalizing app given with
  | nil =>
    cases hrun
    rw [List.flatMap_nil, List.append_nil]
    exact h
  | cons step rest ih =>
    obtain ⟨_, between, hfirst, hrest⟩ := run_bind_eq_ok_iff.mp hrun
    rw [List.flatMap_cons, ← List.append_assoc]
    exact ih (tagged_perform h hfirst) hrest

end Call

/-- After any calls that succeeded, the document lists every name that was given as a tag once, in
the order in which the names were given first. A name has the first description that was given for
it. The tags of every operation are names of the list, each of them once. -/
theorem tags_document {settings : Settings} {calls : List (Classes × Call)} {app : Application}
    (h : (Call.performAll calls).run (ofSettings settings) = .ok () app) :
    let given := calls.flatMap (·.2.sources)
    let d := app.document.1
    let names := d.tags.map (·.name)
    names = (given.map TagSource.label).eraseDups ∧ names.Nodup ∧
      (∀ name, name ∈ names ↔ ∃ source ∈ given, source.label = name) ∧
      (∀ t ∈ d.tags, t.text? = TagSource.firstDescription? settings given t.name) ∧
      ∀ item ∈ d.paths, ∀ entry ∈ item.2, entry.2.tags.Nodup ∧ entry.2.tags ⊆ names := by
  intro given d names
  have htagged : app.assembler.Tagged settings given :=
    Call.tagged_performAll (Assembler.tagged_new settings) h
  have hd : d = app.assembler.present :=
    congrArg Prod.fst (Assembler.finalize_of_none htagged.unmade)
  have hnames : names = (given.map TagSource.label).eraseDups := by
    change d.tags.map (·.name) = _
    rw [hd]
    exact htagged.table.names
  refine ⟨hnames, ?_, fun name => ?_, ?_, ?_⟩
  · rw [hnames]
    exact Classes.nodup_eraseDups _
  · rw [hnames, List.mem_eraseDups, List.mem_map]
  · rw [hd]
    exact htagged.table.described
  · rw [hd]
    intro item hitem entry hentry
    obtain ⟨hnodup, hgiven⟩ := htagged.operations item hitem entry hentry
    refine ⟨hnodup, fun name hname => ?_⟩
    rw [hnames, List.mem_eraseDups]
    exact hgiven hname

/-- A tag keeps the description that it got first, another one gets its own later, and a third one
never gets any. -/
theorem tags_document_pets :
    let settings : Settings := { tags := [("pets", "All about pets")] }
    let listing : RouteDescription := {
      method := "get"
      path := .one "/pets"
      operation := { tags := [.name "admin", .name "pets", .member "billing" (.text "")] }
      handler := fun _ _ => .ok .null }
    let calls : List (Classes × Call) :=
      [({}, .route { tags := [.name "pets"] } listing),
        ({}, .tag (.tag ⟨"admin", some (some "Admins only")⟩)),
        ({}, .tag (.tag ⟨"pets", some (some "Cats and dogs")⟩))]
    ∃ app, (Call.performAll calls).run (ofSettings settings) = .ok () app ∧
      app.document.1.tags.map (·.name) = ["pets", "admin", "billing"] ∧
      app.document.1.tags.map Tag.text? =
        [some "All about pets", some "Admins only", none] := by
  intro settings listing calls
  have hruns : ∃ app, (Call.performAll calls).run (ofSettings settings) = .ok () app := ⟨_, rfl⟩
  obtain ⟨app, hrun⟩ := hruns
  obtain ⟨hnames, _, _, hdescribed, _⟩ := tags_document hrun
  have hgiven : app.document.1.tags.map (·.name) = ["pets", "admin", "billing"] := hnames.trans rfl
  refine ⟨app, hrun, hgiven, ?_⟩
  let firstText := TagSource.firstDescription? settings (calls.flatMap (·.2.sources))
  calc
    app.document.1.tags.map Tag.text?
      = app.document.1.tags.map (firstText ∘ (·.name)) := List.map_congr_left hdescribed
    _ = (app.document.1.tags.map (·.name)).map firstText := List.map_map.symm
    _ = [some "All about pets", some "Admins only", none] := by
      rw [hgiven]
      rfl

end Application

end HttpContract
