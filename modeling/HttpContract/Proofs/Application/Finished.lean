import HttpContract.Proofs.Application.Comparing

/-!
# What still happens to a finished document

Once the document is made, nothing is attached to it any more. But tags may still be added, also by
an operation that is described and then not attached, and the first description that is given under
the name of a tag of the document is filled in if the tag has none.
-/

namespace HttpContract

/-- Items under a key are written in full. -/
theorem Json.nonempty_inj {key : String} {items others : List Json} :
    Json.nonempty key items = Json.nonempty key others ↔ items = others := by
  cases items <;> cases others <;> simp [Json.nonempty]

namespace Tag

/-- A tag after others came in one by one. -/
def filledByAll (incoming : List Tag) (t : Tag) : Tag :=
  incoming.foldl (fun t other => filledBy other t) t

/-- A tag is filled in unless it has a description, or the incoming one is of another name or has
none. -/
theorem filledBy_eq_self {incoming t : Tag}
    (h : t.text? = none → incoming.name = t.name → incoming.text? = none) :
    filledBy incoming t = t := by
  refine if_neg ?_
  rintro ⟨hname, hmissing, hgiven⟩
  rw [h (Option.isNone_iff_eq_none.mp hmissing) hname.symm] at hgiven
  cases hgiven

/-- A tag keeps its description, and without one takes that of an incoming tag of its name. -/
theorem text?_filledBy (incoming t : Tag) :
    (filledBy incoming t).text? =
      t.text?.or (if incoming.name = t.name then incoming.text? else none) := by
  by_cases hname : incoming.name = t.name
  · rw [if_pos hname]
    cases ht : t.text? with
    | some text =>
      have hkept : filledBy incoming t = t := filledBy_eq_self fun hnone => by
        rw [ht] at hnone
        cases hnone
      rw [hkept, ht, Option.some_or]
    | none =>
      rw [Option.none_or]
      cases hincoming : incoming.text? with
      | none => rw [filledBy_eq_self fun _ _ => hincoming, ht]
      | some text =>
        have hfills : t.name = incoming.name ∧ t.text?.isNone ∧ incoming.text?.isSome := by
          rw [ht, hincoming]
          exact ⟨hname.symm, rfl, rfl⟩
        rw [filledBy, if_pos hfills]
        exact hincoming
  · rw [if_neg hname, Option.or_none, filledBy_of_ne (Ne.symm hname)]

/-- A tag has a description after another one came in if it had one, or if that one is of its name
and has one. -/
theorem isSome_text?_filledBy (incoming t : Tag) :
    (filledBy incoming t).text?.isSome ↔
      t.text?.isSome ∨ incoming.name = t.name ∧ incoming.text?.isSome := by
  rw [text?_filledBy, Option.isSome_or, Bool.or_eq_true]
  by_cases hname : incoming.name = t.name <;> simp [hname]

/-- A tag has a description after others came in if it had one, or if one of its name has. -/
theorem isSome_text?_filledByAll (incoming : List Tag) (t : Tag) :
    (filledByAll incoming t).text?.isSome ↔
      t.text?.isSome ∨ ∃ other ∈ incoming, other.name = t.name ∧ other.text?.isSome := by
  induction incoming generalizing t with
  | nil => exact (or_iff_left fun ⟨_, hother, _⟩ => (nomatch hother)).symm
  | cons first rest ih =>
    rw [filledByAll, List.foldl_cons]
    change (filledByAll rest (filledBy first t)).text?.isSome ↔ _
    rw [ih, isSome_text?_filledBy, name_filledBy, or_assoc]
    simp only [List.mem_cons, exists_eq_or_imp]

/-- Tags that come in change one exactly when it has no description, and one of its name has. -/
theorem filledByAll_eq_self_iff (incoming : List Tag) (t : Tag) :
    filledByAll incoming t = t ↔
      (t.text? = none → ∀ other ∈ incoming, other.name = t.name → other.text? = none) := by
  constructor
  · intro heq hnone other hother hname
    by_contra hgiven
    have hfilled : (filledByAll incoming t).text?.isSome := by
      rw [isSome_text?_filledByAll]
      exact Or.inr ⟨other, hother, hname, Option.isSome_iff_ne_none.mpr hgiven⟩
    rw [heq, hnone] at hfilled
    cases hfilled
  · intro h
    unfold filledByAll
    induction incoming with
    | nil => rfl
    | cons first rest ih =>
      have hfirst : filledBy first t = t :=
        filledBy_eq_self fun hnone => h hnone first List.mem_cons_self
      rw [List.foldl_cons, hfirst]
      exact ih fun hnone other hother => h hnone other (List.mem_cons_of_mem first hother)

/-- What is written of a tag tells which tag it is. -/
theorem toJson_injective : Function.Injective toJson := by
  rintro ⟨name, description⟩ ⟨otherName, otherDescription⟩ h
  rcases description with _ | _ | text <;> rcases otherDescription with _ | _ | otherText <;>
    simp_all [toJson]

end Tag

namespace Document

/-- A document whose tags are filled in. -/
def filledBy (incoming : List Tag) (d : Document) : Document :=
  { d with tags := d.tags.map (Tag.filledByAll incoming) }

/-- With nothing to fill in, a document stays as it is. -/
theorem filledBy_nil (d : Document) : d.filledBy [] = d := by
  have hid : Tag.filledByAll [] = id := rfl
  rw [filledBy, hid, List.map_id]

/-- Filled in twice, a document is filled in with the one after the other. -/
theorem filledBy_append (front behind : List Tag) (d : Document) :
    d.filledBy (front ++ behind) = (d.filledBy front).filledBy behind := by
  have htags : Tag.filledByAll (front ++ behind) =
      Tag.filledByAll behind ∘ Tag.filledByAll front := by
    funext t
    exact List.foldl_append
  unfold filledBy
  rw [htags, ← List.map_map]

/-- A document is written as before exactly when none of its tags is filled in. -/
theorem toJson_filledBy_eq_iff (incoming : List Tag) (d : Document) :
    (d.filledBy incoming).toJson = d.toJson ↔
      ∀ t ∈ d.tags, t.text? = none →
        ∀ other ∈ incoming, other.name = t.name → other.text? = none := by
  have hwritten : (d.filledBy incoming).toJson = d.toJson ↔
      (d.tags.map (Tag.filledByAll incoming)).map Tag.toJson = d.tags.map Tag.toJson := by
    unfold toJson filledBy infoToJson
    rw [Json.object.injEq, List.append_right_inj, Json.nonempty_inj]
  rw [hwritten, List.map_map, List.map_inj_left]
  refine forall_congr' fun t => forall_congr' fun _ => ?_
  rw [Function.comp_apply, Tag.toJson_injective.eq_iff]
  exact Tag.filledByAll_eq_self_iff incoming t

end Document

namespace Assembler

variable {C : Classes} {a between after : Assembler} {α : Type} {m : Assemble α}

/-- Whether something was done that kept the settings, and a document but for the descriptions that
certain sources of tags give. -/
structure Fills (sources : List TagSource) (a after : Assembler) : Prop where
  settings : after.settings = a.settings
  document : ∀ d, a.document = some d →
    after.document = some (d.filledBy (sources.map (Tag.ofSource a.settings)))

/-- What changes neither settings nor document fills nothing in. -/
theorem Fills.of_eq (hsettings : after.settings = a.settings)
    (hdocument : after.document = a.document) : Fills [] a after := by
  refine ⟨hsettings, fun d hd => ?_⟩
  rw [hdocument, hd, List.map_nil, Document.filledBy_nil]

/-- What is done one after the other fills in one after the other. -/
theorem Fills.trans {front behind : List TagSource} (h : Fills front a between)
    (h' : Fills behind between after) : Fills (front ++ behind) a after := by
  refine ⟨h'.settings.trans h.settings, fun d hd => ?_⟩
  rw [h'.document _ (h.document d hd), h.settings, List.map_append, Document.filledBy_append]

/-- A tag that is added is filled in. -/
theorem fills_addTag (source : TagSource) (a : Assembler) :
    Fills [source] a (a.addTag source).2 := by
  refine ⟨rfl, fun d hd => ?_⟩
  rw [addTag, hd]
  rfl

/-- Several tags that are added are filled in one after the other. -/
theorem fills_addTags (sources : List TagSource) (a : Assembler) :
    Fills sources a (addTags sources a).2 := by
  have hfoldl (names : List String) :
      Fills sources a (sources.foldl addNamed (names, a)).2 := by
    induction sources generalizing names a with
    | nil => exact .of_eq rfl rfl
    | cons source rest ih => exact (fills_addTag source a).trans (ih _ _)
  exact hfoldl []

/-- A step that adds no tags fills nothing in. -/
theorem Step.fills (h : Step C [] m) (hends : Ends m a after) : Fills [] a after := by
  have hkept : after.settings = a.settings ∧ after.document = a.document := by
    refine h.keeps (I := fun b => b.settings = a.settings ∧ b.document = a.document)
      ?_ ?_ hends ⟨rfl, rfl⟩
    · intro _ _ _ b builder _ hb
      exact hb
    · exact fun b hb => hb
  exact .of_eq hkept.1 hkept.2

/-- An operation fills in its tags, also when it comes to nothing. -/
theorem fills_operation {parameters : List Parameter} {spec : OperationSpec}
    (hends : Ends (operation C parameters spec) a after) : Fills spec.tags a after := by
  rw [operation_eq] at hends
  -- The tags are added first, which cannot fail; nothing is added after that.
  rcases hends.bind with ⟨_, ⟨⟩⟩ | ⟨tags, between, hadded, hends⟩
  cases hadded
  have hrest := (Step.bodyAndResponse C [] parameters spec _).fills hends
  have htags := (fills_addTags spec.tags a).trans hrest
  rwa [List.append_nil] at htags

/-- Attaching an operation fills nothing in. -/
theorem fills_addOperation {paths : List String} {method : String} {made : Operation}
    (hends : Ends (addOperation paths method made) a after) : Fills [] a after := by
  rcases ends_addOperation hends with rfl | rfl <;> exact .of_eq rfl rfl

/-- The document is made once. -/
theorem fills_finalize (a : Assembler) : Fills [] a a.finalize.2 := by
  cases hdocument : a.document with
  | some d =>
    rw [finalize_of_some hdocument]
    exact .of_eq rfl rfl
  | none =>
    rw [finalize_of_none hdocument]
    exact ⟨rfl, fun d hd => by rw [hdocument] at hd; cases hd⟩

end Assembler

/-- The state that a step ends in, with a result or with a failure. -/
def stateAfter {ε σ α : Type} (m : EStateM ε σ α) (s : σ) : σ :=
  match m.run s with
  | .ok _ after => after
  | .error _ after => after

/-- A step ends in the state after it. -/
theorem ends_stateAfter {ε σ α : Type} (m : EStateM ε σ α) (s : σ) : Ends m s (stateAfter m s) := by
  unfold stateAfter
  cases hrun : m.run s with
  | ok result after => exact Or.inl ⟨result, hrun⟩
  | error e after => exact Or.inr ⟨e, hrun⟩

namespace Application

/-- What may be done with an application and with its assembler. -/
inductive Use where
  /-- A tag is added. -/
  | tag (source : TagSource)
  /-- An operation is described. -/
  | operation (parameters : List Parameter) (spec : OperationSpec)
  /-- An operation is attached under paths. -/
  | attach (paths : List String) (method : String) (made : Operation)
  /-- The assembler is asked for its document. -/
  | finalize
  /-- The application is asked for something. -/
  | act (action : Action)

/-- The application after a use, be that accepted or refused. -/
def use (C : Classes) (app : Application) : Use → Application
  | .tag source => { app with assembler := (app.assembler.addTag source).2 }
  | .operation parameters spec =>
    { app with assembler := stateAfter (Assembler.operation C parameters spec) app.assembler }
  | .attach paths method made =>
    { app with assembler := stateAfter (Assembler.addOperation paths method made) app.assembler }
  | .finalize => { app with assembler := app.assembler.finalize.2 }
  | .act action => (app.perform C action).2

/-- The application after several uses, each of them with the classes that are described by then. -/
def afterUses (app : Application) : List (Classes × Use) → Application
  | [] => app
  | (C, u) :: rest => afterUses (app.use C u) rest

/-- The tags that come in when an operation is described: those of its groups and its own, after its
parameters are described. -/
def givenWith (C : Classes) (a : Assembler) (group : RouteGroup) (spec : RouteDescription)
    (binder : Option Binder) : List TagSource :=
  match (Assembler.parameters C binder).run a with
  | .ok _ _ => group.tags ++ spec.operation.tags
  | .error _ _ => []

/-- The tags that come in with a use. -/
def given (C : Classes) (app : Application) : Use → List TagSource
  | .tag source => [source]
  | .operation _ spec => spec.tags
  | .act (.register group spec) =>
    match prepare C app.closed group spec with
    | .ok (_, binder) => givenWith C app.assembler group spec binder
    | .error _ => []
  | _ => []

/-- The tags that come in with several uses. -/
def givenIn (app : Application) : List (Classes × Use) → List TagSource
  | [] => []
  | (C, u) :: rest => app.given C u ++ givenIn (app.use C u) rest

variable {C : Classes} {app : Application} {group : RouteGroup} {spec : RouteDescription}
  {binder : Option Binder} {templates : List String} {a after : Assembler}

/-- The operation of a registration fills in the tags that come in with it. -/
theorem fills_described (hends : Ends (described C group spec binder) a after) :
    Assembler.Fills (givenWith C a group spec binder) a after := by
  unfold givenWith
  rcases hends.bind with ⟨e, hparameters⟩ | ⟨parameters, between, hparameters, hends⟩
  · rw [hparameters]
    exact (Assembler.Step.parameters C [] binder).fills (Or.inr ⟨e, hparameters⟩)
  · rw [hparameters]
    have hbetween := (Assembler.Step.parameters C [] binder).fills (Or.inl ⟨_, hparameters⟩)
    exact hbetween.trans (Assembler.fills_operation hends)

/-- Attached or not, the operation of a registration fills in the tags that come in with it. -/
theorem fills_assemble (hends : Ends (assemble C group spec templates binder) a after) :
    Assembler.Fills (givenWith C a group spec binder) a after := by
  rcases hends.bind with ⟨e, hdescribed⟩ | ⟨made, between, hdescribed, hends⟩
  · exact fills_described (Or.inr ⟨e, hdescribed⟩)
  · have hfills := (fills_described (Or.inl ⟨made, hdescribed⟩)).trans
      (Assembler.fills_addOperation hends)
    rwa [List.append_nil] at hfills

/-- A registration fills in the tags that come in with it. -/
theorem fills_register (C : Classes) (app : Application) (group : RouteGroup)
    (spec : RouteDescription) :
    Assembler.Fills (app.given C (.act (.register group spec))) app.assembler
      (app.perform C (.register group spec)).2.assembler := by
  unfold given perform
  dsimp only
  rw [run_register]
  cases hprepare : prepare C app.closed group spec with
  | error e => exact .of_eq rfl rfl
  | ok prepared =>
    obtain ⟨templates, binder⟩ := prepared
    dsimp only
    cases hassemble : (assemble C group spec templates binder).run app.assembler with
    | error e a => exact fills_assemble (Or.inr ⟨e, hassemble⟩)
    | ok added a => exact fills_assemble (Or.inl ⟨added, hassemble⟩)

/-- Every use fills in the tags that come in with it, and does nothing else to a document. -/
theorem fills_use (C : Classes) (app : Application) (u : Use) :
    Assembler.Fills (app.given C u) app.assembler (app.use C u).assembler := by
  cases u with
  | tag source => exact Assembler.fills_addTag source app.assembler
  | operation parameters spec => exact Assembler.fills_operation (ends_stateAfter _ _)
  | attach paths method made => exact Assembler.fills_addOperation (ends_stateAfter _ _)
  | finalize => exact Assembler.fills_finalize app.assembler
  | act action =>
    cases action with
    | register group spec => exact fills_register C app group spec
    | document => exact Assembler.fills_finalize app.assembler
    | request request =>
      change Assembler.Fills [] app.assembler (app.perform C (.request request)).2.assembler
      rcases perform_request_eq C app request with hafter | hafter
      · rw [hafter]
        exact .of_eq rfl rfl
      · rw [hafter]
        exact Assembler.fills_finalize app.assembler

/-- Uses fill in the tags that come in with them one after the other. -/
theorem fills_afterUses (app : Application) (later : List (Classes × Use)) :
    Assembler.Fills (app.givenIn later) app.assembler (app.afterUses later).assembler := by
  induction later generalizing app with
  | nil => exact .of_eq rfl rfl
  | cons step rest ih => exact (fills_use step.1 app step.2).trans (ih (app.use step.1 step.2))

/-- An application that is closed stays so. -/
theorem closed_perform (hclosed : app.closed = true) (action : Action) :
    (app.perform C action).2.closed = true := by
  cases action with
  | document => rfl
  | request request =>
    rcases perform_request_eq C app request with hafter | hafter
    · rwa [hafter]
    · rw [hafter]
      rfl
  | register group spec =>
    unfold perform
    dsimp only
    split
    · rename_i hrun
      obtain ⟨_, _, _, _, hprepare, _⟩ := run_register_eq_ok hrun
      rw [(prepare_eq_ok hprepare).1] at hclosed
      cases hclosed
    · rename_i hrun
      rcases run_register_eq_error hrun with ⟨_, rfl⟩ | ⟨_, _, _, _, _, rfl⟩
      · exact hclosed
      · exact hclosed

/-- No tags come in through an application that is closed. -/
theorem given_of_closed (hclosed : app.closed = true) (action : Action) :
    app.given C (.act action) = [] := by
  cases action with
  | document => rfl
  | request request => rfl
  | register group spec =>
    unfold given
    dsimp only
    split
    · rename_i hprepare
      rw [(prepare_eq_ok hprepare).1] at hclosed
      cases hclosed
    · rfl

/-- No tags come in through an application that is closed, whatever is asked of it. -/
theorem givenIn_of_closed (hclosed : app.closed = true) {later : List (Classes × Use)}
    (hactions : ∀ step ∈ later, ∃ action, step.2 = .act action) : app.givenIn later = [] := by
  induction later generalizing app with
  | nil => rfl
  | cons step rest ih =>
    obtain ⟨C, u⟩ := step
    obtain ⟨hfirst, hrest⟩ := List.forall_mem_cons.mp hactions
    obtain ⟨action, rfl⟩ : ∃ action, u = .act action := hfirst
    rw [givenIn, given_of_closed hclosed, List.nil_append]
    exact ih (closed_perform hclosed action) hrest

/-- Once there is a document, nothing that is done changes it but tags that come in and fill in the
descriptions that its own tags miss. It is written as before exactly when none of them misses one
that comes in. If the application itself was asked for it, then registrations, requests and asking
again leave it as it is. -/
theorem document_afterUses {d : Document} (h : app.assembler.document = some d)
    (later : List (Classes × Use)) :
    let after := app.afterUses later
    let incoming := (app.givenIn later).map (Tag.ofSource app.settings)
    after.assembler.document = some (d.filledBy incoming) ∧
      ((d.filledBy incoming).toJson = d.toJson ↔
        ∀ t ∈ d.tags, t.text? = none →
          ∀ other ∈ incoming, other.name = t.name → other.text? = none) ∧
      (app.closed = true → (∀ step ∈ later, ∃ action, step.2 = .act action) →
        after.assembler.document = some d) := by
  intro after incoming
  have hdocument : after.assembler.document = some (d.filledBy incoming) :=
    (fills_afterUses app later).document d h
  refine ⟨hdocument, d.toJson_filledBy_eq_iff incoming, fun hclosed hactions => ?_⟩
  have hnone : incoming = [] := by
    change (app.givenIn later).map _ = []
    rw [givenIn_of_closed hclosed hactions, List.map_nil]
  rw [hdocument, hnone, Document.filledBy_nil]

/-- A tag of a finished document takes the description that an operation brings, though the
operation cannot be attached any more. -/
theorem document_afterUses_pets :
    let app := (ofSettings {}).afterUses [({}, .tag (.name "pets")), ({}, .act .document)]
    let animals : Tag := ⟨"pets", some (some "Animals")⟩
    let later : List (Classes × Use) :=
      [({}, .operation [] { tags := [.tag animals] }),
        ({}, .attach ["/pets"] "get" { response := ⟨200, "OK", none⟩ })]
    ∃ d, app.assembler.document = some d ∧
      (app.afterUses later).assembler.document = some (d.filledBy [animals]) ∧
      (d.filledBy [animals]).toJson ≠ d.toJson := by
  intro app animals later
  have hgiven : ∃ d, app.assembler.document = some d ∧ d.tags = [⟨"pets", none⟩] := ⟨_, rfl, rfl⟩
  obtain ⟨d, hd, htags⟩ := hgiven
  obtain ⟨hdocument, hchanged, _⟩ := document_afterUses hd later
  refine ⟨d, hd, hdocument, fun heq => ?_⟩
  have hnone := hchanged.mp heq ⟨"pets", none⟩ (by simp [htags]) rfl animals
    List.mem_cons_self rfl
  cases hnone

end Application

end HttpContract
