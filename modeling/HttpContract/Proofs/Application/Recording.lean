import HttpContract.Proofs.LowerCase
import HttpContract.Proofs.Tables
import HttpContract.Proofs.Application.Comparing

/-!
# Operations and routes tally

A registration records its operation and adds its routes under the same methods and templates, in
two tables of their own. Whatever was done before, accepted or refused, both tables have the same
methods and templates, and what was recorded is never replaced by a later registration. A template
that one registration names twice is served twice.
-/

namespace HttpContract

namespace Assembler

/-- The operation that paths have for a method of one of them. -/
def operationAt? (paths : Table String PathItem) (method path : String) : Option Operation :=
  (Table.get? path paths).bind (Table.get? method)

variable {method path : String} {made : Operation} {table : Table String PathItem}

/-- An operation that is set is found under its own method and path, and no other one notices. -/
theorem operationAt?_setPath (other otherPath : String) :
    operationAt? (setPath path method made table) other otherPath =
      if other = method ∧ otherPath = path then some made
      else operationAt? table other otherPath := by
  have hitem : (Table.get? other ((Table.get? path table).getD [])) =
      operationAt? table other path := by
    unfold operationAt?
    cases Table.get? path table <;> rfl
  unfold operationAt? setPath
  rw [Table.get?_update]
  by_cases hpath : otherPath = path
  · rw [if_pos hpath, Option.bind_some, Table.get?_set, hitem, hpath]
    by_cases hmethod : other = method
    · rw [if_pos hmethod, if_pos ⟨hmethod, rfl⟩]
    · rw [if_neg hmethod, if_neg fun h => hmethod h.1]
      rfl
  · rw [if_neg hpath, if_neg fun h => hpath h.2]

/-- Of operations that are set one after the other the last one for a path is found. -/
theorem operationAt?_foldl (entries : Table String Operation) (other otherPath : String) :
    operationAt? (entries.foldl (fun table (path, made) => setPath path method made table) table)
        other otherPath =
      if other = method then
        (Table.get? otherPath entries.reverse).or (operationAt? table other otherPath)
      else operationAt? table other otherPath := by
  induction entries generalizing table with
  | nil =>
    rw [List.reverse_nil]
    exact (ite_self _).symm
  | cons entry rest ih =>
    obtain ⟨path, made⟩ := entry
    rw [List.foldl_cons, ih, operationAt?_setPath, List.reverse_cons, Table.get?_append]
    by_cases hmethod : other = method
    · rw [if_pos hmethod, if_pos hmethod, Option.or_assoc]
      by_cases hpath : otherPath = path
      · simp [hmethod, hpath, Table.get?]
      · simp [hpath, Ne.symm hpath, Table.get?]
    · simp [hmethod]

variable {paths : List String}

/-- An operation stands under an alias for just the paths that it is attached under. -/
theorem get?_attached_eq_none_iff :
    Table.get? path (paths.zip (attached paths made)).reverse = none ↔ path ∉ paths := by
  have hlength : paths.length ≤ (attached paths made).length := by simp [attached]
  rw [Table.get?_eq_none_iff, Table.keys, List.map_reverse, List.mem_reverse,
    List.map_fst_zip hlength]

/-- What is found where the operation is not attached was there before. -/
theorem operationAt?_withOperation_of_notMem {other otherPath : String}
    (h : ¬(other = lowerText method ∧ otherPath ∈ paths)) :
    operationAt? (withOperation paths method made table) other otherPath =
      operationAt? table other otherPath := by
  rw [withOperation, operationAt?_foldl]
  by_cases hmethod : other = lowerText method
  · have hpath : otherPath ∉ paths := fun hmem => h ⟨hmethod, hmem⟩
    rw [if_pos hmethod, get?_attached_eq_none_iff.mpr hpath, Option.none_or]
  · rw [if_neg hmethod]

/-- One operation attached under several paths is found under each of them, besides what was there
before. -/
theorem isSome_operationAt?_withOperation (other otherPath : String) :
    (operationAt? (withOperation paths method made table) other otherPath).isSome ↔
      (other = lowerText method ∧ otherPath ∈ paths) ∨
        (operationAt? table other otherPath).isSome := by
  by_cases hattached : other = lowerText method ∧ otherPath ∈ paths
  · have hpath : Table.get? otherPath (paths.zip (attached paths made)).reverse ≠ none :=
      fun hnone => get?_attached_eq_none_iff.mp hnone hattached.2
    rw [withOperation, operationAt?_foldl, if_pos hattached.1, Option.isSome_or, Bool.or_eq_true,
      ← Option.ne_none_iff_isSome]
    exact iff_of_true (Or.inl hpath) (Or.inl hattached)
  · rw [operationAt?_withOperation_of_notMem hattached, or_iff_right hattached]

variable {a : Assembler}

/-- While there is no document an operation is attached under its paths, unless the method of one of
them has an operation already: then the first such path is told. -/
theorem run_addOperation_of_none (h : a.document = none) :
    (addOperation paths method made).run a =
      match paths.find? fun path => (operationAt? a.paths (lowerText method) path).isSome with
      | some path => .error (.configuration (.duplicateRoute (upperText (lowerText method)) path)) a
      | none => .ok (attached paths made)
          { a with paths := withOperation paths method made a.paths } := by
  have hitem (path : String) : Table.get? (lowerText method) ((Table.get? path a.paths).getD []) =
      operationAt? a.paths (lowerText method) path := by
    unfold operationAt?
    cases Table.get? path a.paths <;> rfl
  have hopen : ¬(none : Option Document).isSome = true := Bool.false_ne_true
  cases hfound : paths.find? fun path => (operationAt? a.paths (lowerText method) path).isSome with
  | some path => simp only [run_addOperation, h, if_neg hopen, hitem, hfound]
  | none => simp only [run_addOperation, h, if_neg hopen, hitem, hfound]

end Assembler

/-- A path item shows its operations for the methods that it has room for. -/
theorem PathItem.mem_documented {item : PathItem} {method : String} {shown : Operation} :
    (method, shown) ∈ item.documented ↔
      method ∈ documentedMethods ∧ Table.get? method item = some shown := by
  unfold documented
  simp only [List.mem_filterMap, Option.map_eq_some_iff, Prod.mk.injEq]
  constructor
  · rintro ⟨_, hmethod, _, hget, rfl, rfl⟩
    exact ⟨hmethod, hget⟩
  · rintro ⟨hmethod, hget⟩
    exact ⟨method, hmethod, shown, hget, rfl, rfl⟩

/-- The method and the template of a route. -/
def Route.pair (r : Route) : String × String := (r.method, r.template)

namespace Application

/-- The methods with the templates that routes are served under, in the order of registration. -/
def pairs (app : Application) : List (String × String) := app.routes.map Route.pair

/-- The methods with the templates that a registration names. -/
def named (C : Classes) (group : RouteGroup) (spec : RouteDescription) : List (String × String) :=
  match pathsOf C spec with
  | .ok paths => paths.map fun path => (lowerText spec.method, joinPaths group.path path)
  | .error _ => []

/-- Whether nothing but its templates can speak against a registration: it is prepared, and its
operation is described. -/
def Describes (C : Classes) (app : Application) (group : RouteGroup) (spec : RouteDescription) :
    Prop :=
  ∃ templates binder made between,
    prepare C app.closed group spec = .ok (templates, binder) ∧
      (described C group spec binder).run app.assembler = .ok made between

variable {C : Classes} {app : Application} {group : RouteGroup} {spec : RouteDescription}
  {templates : List String} {binder : Option Binder}

/-- The templates of a prepared registration are those that it names. -/
theorem named_of_prepare {closed : Bool}
    (h : prepare C closed group spec = .ok (templates, binder)) :
    named C group spec = templates.map fun template => (lowerText spec.method, template) := by
  obtain ⟨paths, hpaths, h⟩ := bind_eq_ok_iff.mp h
  split at h
  · cases h
  · obtain ⟨_, _, h⟩ := bind_eq_ok_iff.mp h
    obtain ⟨_, _, h⟩ := bind_eq_ok_iff.mp h
    cases h
    rw [named, mapError_eq_ok_iff.mp hpaths, List.map_map]
    rfl

/-- What holds of an application at any moment: while it is open there is no document, and
afterwards the document has the paths that were recorded; and an operation is recorded for just the
methods and templates that routes are served under. -/
structure Tallies (app : Application) : Prop where
  collecting : app.closed = false → app.assembler.document = none
  given : app.closed = true →
    ∃ d, app.assembler.document = some d ∧ d.paths = app.assembler.paths
  recorded_iff : ∀ method template,
    (Assembler.operationAt? app.assembler.paths method template).isSome ↔
      (method, template) ∈ app.pairs

/-- Describing an operation changes neither the paths nor that there is no document. -/
theorem described_keeps {a between : Assembler}
    (hends : Ends (described C group spec binder) a between) (hdocument : a.document = none) :
    between.document = none ∧ between.paths = a.paths := by
  have hshell := (step_described C group spec binder).shell_eq hends
  have huntagged : between.document.map Document.untagged = a.document.map Document.untagged :=
    congrArg (·.document) hshell
  rw [hdocument] at huntagged
  exact ⟨Option.map_eq_none_iff.mp huntagged, congrArg (·.paths) hshell⟩

/-- What becomes of a registration that nothing but its templates can speak against. -/
theorem Tallies.perform_of_described (h : app.Tallies)
    (hprepare : prepare C app.closed group spec = .ok (templates, binder)) {made : Operation}
    {between : Assembler}
    (hmade : (described C group spec binder).run app.assembler = .ok made between) :
    app.perform C (.register group spec) =
      match (named C group spec).find? (· ∈ app.pairs) with
      | some pair =>
        (.refused (.configuration (.duplicateRoute (upperText pair.1) pair.2)),
          { app with assembler := between })
      | none =>
        let paths :=
          Assembler.withOperation templates (lowerText spec.method) made app.assembler.paths
        (.accepted, { app with
          assembler := { between with paths },
          routes := app.routes ++ templates.map (routeAt C spec binder) }) := by
  obtain ⟨hdocument, hpaths⟩ :=
    described_keeps (Or.inl ⟨made, hmade⟩) (h.collecting (prepare_eq_ok hprepare).1)
  -- The method is put in lower case by the registration, and once more where it is attached.
  have htaken :
      (fun template => (Assembler.operationAt? between.paths (lowerText (lowerText spec.method))
        template).isSome) =
      fun template => decide ((lowerText spec.method, template) ∈ app.pairs) := by
    funext template
    rw [hpaths, lowerText_lowerText, Bool.eq_iff_iff, h.recorded_iff, decide_eq_true_iff]
  have hfound : (named C group spec).find? (· ∈ app.pairs) =
      (templates.find? fun template => (lowerText spec.method, template) ∈ app.pairs).map
        fun template => (lowerText spec.method, template) := by
    rw [named_of_prepare hprepare, List.find?_map]
    rfl
  unfold perform
  dsimp only
  rw [run_register, hprepare, hfound]
  dsimp only
  rw [assemble, EStateM.run_bind, hmade]
  dsimp only
  rw [Assembler.run_addOperation_of_none hdocument, htaken, lowerText_lowerText, hpaths]
  cases templates.find? fun template => (lowerText spec.method, template) ∈ app.pairs <;> rfl

/-- What a registration comes to: it is refused for something else than its templates, or for the
first of them that is served already, or it is accepted. -/
inductive Outcome (C : Classes) (app : Application) (group : RouteGroup) (spec : RouteDescription) :
    Prop
  /-- Its paths, its parameters or its types are refused. -/
  | undescribed (hnot : ¬Describes C app group spec) (e : Failure) (a : Assembler)
      (hperform : app.perform C (.register group spec) = (.refused e, { app with assembler := a }))
      (hdocument : a.document = app.assembler.document) (hpaths : a.paths = app.assembler.paths)
  /-- A method and a template that it names are served already. -/
  | taken (hdescribes : Describes C app group spec) (pair : String × String)
      (hfound : (named C group spec).find? (· ∈ app.pairs) = some pair) (a : Assembler)
      (hperform : app.perform C (.register group spec) =
        (.refused (.configuration (.duplicateRoute (upperText pair.1) pair.2)),
          { app with assembler := a }))
      (hdocument : a.document = app.assembler.document) (hpaths : a.paths = app.assembler.paths)
  /-- Nothing that it names is served yet. -/
  | free (hdescribes : Describes C app group spec)
      (hfound : (named C group spec).find? (· ∈ app.pairs) = none) (a : Assembler)
      (routes : List Route) (hroutes : routes.map Route.pair = named C group spec)
      (hperform : app.perform C (.register group spec) =
        (.accepted, { app with assembler := a, routes := app.routes ++ routes }))
      (hdocument : a.document = app.assembler.document)
      (hrecorded : ∀ method template,
        (Assembler.operationAt? a.paths method template).isSome ↔
          (method, template) ∈ named C group spec ∨
            (Assembler.operationAt? app.assembler.paths method template).isSome)
      (hkept : ∀ method template, (method, template) ∉ named C group spec →
        Assembler.operationAt? a.paths method template =
          Assembler.operationAt? app.assembler.paths method template)

/-- A registration that is described is refused for the first template that is served already, or
accepted. -/
theorem Tallies.outcome_of_described (h : app.Tallies)
    (hprepare : prepare C app.closed group spec = .ok (templates, binder)) {made : Operation}
    {between : Assembler}
    (hmade : (described C group spec binder).run app.assembler = .ok made between) :
    Outcome C app group spec := by
  have hdescribes : Describes C app group spec :=
    ⟨templates, binder, made, between, hprepare, hmade⟩
  have hnone : app.assembler.document = none := h.collecting (prepare_eq_ok hprepare).1
  obtain ⟨hdocument, hpaths⟩ := described_keeps (Or.inl ⟨made, hmade⟩) hnone
  have hperform := h.perform_of_described hprepare hmade
  cases hfound : (named C group spec).find? (· ∈ app.pairs) with
  | some pair =>
    rw [hfound] at hperform
    exact .taken hdescribes pair hfound between hperform (hdocument.trans hnone.symm) hpaths
  | none =>
    have hmem (method template : String) : (method, template) ∈ named C group spec ↔
        method = lowerText (lowerText spec.method) ∧ template ∈ templates := by
      rw [named_of_prepare hprepare, lowerText_lowerText]
      simp [eq_comm, and_comm]
    rw [hfound] at hperform
    refine .free hdescribes hfound _ _ ?_ hperform (hdocument.trans hnone.symm) ?_ ?_
    · rw [named_of_prepare hprepare, List.map_map]
      rfl
    · intro method template
      rw [hmem]
      exact Assembler.isSome_operationAt?_withOperation method template
    · intro method template hnot
      rw [hmem] at hnot
      exact Assembler.operationAt?_withOperation_of_notMem hnot

/-- Every registration has one of the three outcomes. -/
theorem Tallies.outcome (h : app.Tallies) (C : Classes) (group : RouteGroup)
    (spec : RouteDescription) : Outcome C app group spec := by
  have hrefused {e : Failure} {after : Application}
      (hrun : (register C group spec).run app = .error e after) :
      app.perform C (.register group spec) = (.refused e, after) := by
    rw [perform, hrun]
  cases hprepare : prepare C app.closed group spec with
  | error e =>
    have hrun : (register C group spec).run app = .error e app := by
      rw [run_register, hprepare]
    refine .undescribed ?_ e app.assembler (hrefused hrun) rfl rfl
    rintro ⟨templates, binder, made, between, hprepared, _⟩
    rw [hprepare] at hprepared
    cases hprepared
  | ok prepared =>
    obtain ⟨templates, binder⟩ := prepared
    cases hmade : (described C group spec binder).run app.assembler with
    | ok made between => exact h.outcome_of_described hprepare hmade
    | error e a =>
      have hnone : app.assembler.document = none := h.collecting (prepare_eq_ok hprepare).1
      obtain ⟨hdocument, hpaths⟩ := described_keeps (Or.inr ⟨e, hmade⟩) hnone
      have hrun : (register C group spec).run app = .error e { app with assembler := a } := by
        rw [run_register, hprepare]
        dsimp only
        rw [assemble, EStateM.run_bind, hmade]
      refine .undescribed ?_ e a (hrefused hrun) (hdocument.trans hnone.symm) hpaths
      rintro ⟨templates', binder', made, between, hprepared, hmade'⟩
      rw [hprepare] at hprepared
      cases hprepared
      rw [hmade] at hmade'
      cases hmade'

/-- An application that was just made has nothing in either table. -/
theorem tallies_ofSettings (settings : Settings) : (ofSettings settings).Tallies :=
  ⟨fun _ => rfl, fun h => (nomatch h), fun _ _ => ⟨fun h => (nomatch h), fun h => (nomatch h)⟩⟩

/-- The document that is given is kept, and has the paths that were recorded. -/
theorem Tallies.document_eq (h : app.Tallies) :
    app.document.2.assembler.document = some app.document.1 ∧
      app.document.1.paths = app.assembler.paths := by
  cases hclosed : app.closed with
  | true =>
    obtain ⟨d, hd, hpaths⟩ := h.given hclosed
    rw [Application.document, Assembler.finalize_of_some hd]
    exact ⟨hd, hpaths⟩
  | false =>
    rw [Application.document, Assembler.finalize_of_none (h.collecting hclosed)]
    exact ⟨rfl, rfl⟩

/-- Asked for its document an application keeps both tables as they are. -/
theorem Tallies.document (h : app.Tallies) : app.document.2.Tallies := by
  have hpaths : app.document.2.assembler.paths = app.assembler.paths := by
    unfold Application.document Assembler.finalize
    cases app.assembler.document <;> rfl
  obtain ⟨hkept, hgiven⟩ := h.document_eq
  refine ⟨fun hopen => (nomatch hopen), fun _ => ⟨_, hkept, hgiven.trans hpaths.symm⟩, ?_⟩
  rw [hpaths]
  exact h.recorded_iff

/-- Whatever is done, both tables tally afterwards. -/
theorem Tallies.perform (h : app.Tallies) (C : Classes) (action : Action) :
    (app.perform C action).2.Tallies := by
  cases action with
  | document => exact h.document
  | request request =>
    rcases perform_request_eq C app request with hafter | hafter
    · rwa [hafter]
    · rw [hafter]
      exact h.document
  | register group spec =>
    have hkept {a : Assembler} (hdocument : a.document = app.assembler.document)
        (hpaths : a.paths = app.assembler.paths) : Tallies { app with assembler := a } := by
      refine ⟨fun hopen => hdocument.trans (h.collecting hopen), fun hclosed => ?_, ?_⟩
      · obtain ⟨d, hd, hpaths'⟩ := h.given hclosed
        exact ⟨d, hdocument.trans hd, hpaths'.trans hpaths.symm⟩
      · rw [hpaths]
        exact h.recorded_iff
    cases h.outcome C group spec with
    | undescribed hnot e a hperform hdocument hpaths =>
      rw [hperform]
      exact hkept hdocument hpaths
    | taken hdescribes pair hfound a hperform hdocument hpaths =>
      rw [hperform]
      exact hkept hdocument hpaths
    | free hdescribes hfound a routes hroutes hperform hdocument hrecorded hothers =>
      obtain ⟨_, _, _, _, hprepare, _⟩ := hdescribes
      have hopen := (prepare_eq_ok hprepare).1
      rw [hperform]
      refine ⟨fun _ => hdocument.trans (h.collecting hopen), fun hclosed => ?_, ?_⟩
      · rw [hopen] at hclosed
        cases hclosed
      · intro method template
        rw [hrecorded, h.recorded_iff, pairs, pairs, List.map_append, hroutes, List.mem_append,
          or_comm]

/-- The application after a history of actions, each of them with the classes that are described by
then. -/
def afterHistory (app : Application) : List (Classes × Action) → Application
  | [] => app
  | (C, action) :: rest => afterHistory (app.perform C action).2 rest

/-- Whatever the history, both tables tally in the end. -/
theorem Tallies.afterHistory (h : app.Tallies) (history : List (Classes × Action)) :
    (app.afterHistory history).Tallies := by
  induction history generalizing app with
  | nil => exact h
  | cons step rest ih => exact ih (h.perform step.1 step.2)

/-- What an action names, if it is a registration that is accepted. -/
def acceptedBy (C : Classes) (app : Application) : Action → Option (List (String × String))
  | .register group spec =>
    match (app.perform C (.register group spec)).1 with
    | .accepted => some (named C group spec)
    | _ => none
  | _ => none

/-- What the accepted registrations of a history name, one by one. -/
def acceptedIn (app : Application) : List (Classes × Action) → List (List (String × String))
  | [] => []
  | (C, action) :: rest =>
    (acceptedBy C app action).toList ++ acceptedIn (app.perform C action).2 rest

/-- An action adds what it names, if it is a registration that is accepted, and this is new. -/
theorem Tallies.pairs_perform (h : app.Tallies) (C : Classes) (action : Action) :
    (app.perform C action).2.pairs = app.pairs ++ (acceptedBy C app action).getD [] ∧
      app.pairs.Disjoint ((acceptedBy C app action).getD []) := by
  have hsame {after : Application} (hroutes : after.routes = app.routes) :
      after.pairs = app.pairs ++ (none : Option (List (String × String))).getD [] := by
    rw [pairs, hroutes, Option.getD_none, List.append_nil]
    rfl
  cases action with
  | document => exact ⟨hsame rfl, List.disjoint_nil_right _⟩
  | request request =>
    refine ⟨hsame ?_, List.disjoint_nil_right _⟩
    rcases perform_request_eq C app request with hafter | hafter
    · rw [hafter]
    · rw [hafter]
      rfl
  | register group spec =>
    cases h.outcome C group spec with
    | undescribed hnot e a hperform hdocument hpaths =>
      rw [acceptedBy, hperform]
      exact ⟨hsame rfl, List.disjoint_nil_right _⟩
    | taken hdescribes pair hfound a hperform hdocument hpaths =>
      rw [acceptedBy, hperform]
      exact ⟨hsame rfl, List.disjoint_nil_right _⟩
    | free hdescribes hfound a routes hroutes hperform hdocument hrecorded hkept =>
      rw [acceptedBy, hperform]
      constructor
      · rw [pairs, List.map_append, hroutes]
        rfl
      · intro pair hpair hnamed
        have hnew := List.find?_eq_none.mp hfound pair hnamed
        exact hnew (decide_eq_true hpair)

/-- In the end no method and template is served twice exactly when that was so before and no
accepted registration named any twice. -/
theorem Tallies.nodup_pairs_iff (h : app.Tallies) (history : List (Classes × Action)) :
    (app.afterHistory history).pairs.Nodup ↔
      app.pairs.Nodup ∧ ∀ names ∈ app.acceptedIn history, names.Nodup := by
  induction history generalizing app with
  | nil => exact (and_iff_left fun _ hnames => (nomatch hnames)).symm
  | cons step rest ih =>
    obtain ⟨C, action⟩ := step
    obtain ⟨hpairs, hdisjoint⟩ := h.pairs_perform C action
    have hrest := ih (h.perform C action)
    rw [hpairs] at hrest
    rw [Application.afterHistory, acceptedIn, hrest]
    cases hnamed : acceptedBy C app action with
    | none => simp
    | some names =>
      -- What is added is new, so it has a repetition only of its own.
      rw [hnamed, Option.getD_some] at hdisjoint
      rw [Option.getD_some, List.nodup_append', and_iff_left hdisjoint]
      simp [and_assoc]

/-- What a registration does, given its answer and the application after it. -/
structure Registers (C : Classes) (app : Application) (group : RouteGroup) (spec : RouteDescription)
    (answer : Answer) (after : Application) : Prop where
  /-- It is accepted exactly when it is described and nothing that it names is served yet. -/
  accepted_iff : answer = .accepted ↔
    Describes C app group spec ∧ ∀ pair ∈ named C group spec, pair ∉ app.pairs
  /-- If nothing but its templates speaks against it, the first that is served already is told. -/
  duplicate : Describes C app group spec → ∀ pair,
    (named C group spec).find? (· ∈ app.pairs) = some pair →
      answer = .refused (.configuration (.duplicateRoute (upperText pair.1) pair.2))
  /-- Accepted, it adds what it names. -/
  adds : answer = .accepted → after.pairs = app.pairs ++ named C group spec
  /-- Refused, it adds neither a route nor an operation. -/
  refused : answer ≠ .accepted →
    after.routes = app.routes ∧ after.assembler.paths = app.assembler.paths
  /-- No operation that was recorded is replaced. -/
  keeps : ∀ method template made,
    Assembler.operationAt? app.assembler.paths method template = some made →
      Assembler.operationAt? after.assembler.paths method template = some made

/-- What is refused with nothing recorded is refused rightly if there is a reason for it, and told
rightly if that reason is a template. -/
theorem registers_of_refused {a : Assembler} {e : Failure}
    (hpaths : a.paths = app.assembler.paths)
    (hreason : ¬(Describes C app group spec ∧ ∀ pair ∈ named C group spec, pair ∉ app.pairs))
    (htold : Describes C app group spec → ∀ pair,
      (named C group spec).find? (· ∈ app.pairs) = some pair →
        e = .configuration (.duplicateRoute (upperText pair.1) pair.2)) :
    Registers C app group spec (.refused e) { app with assembler := a } where
  accepted_iff := iff_of_false (fun h => (nomatch h)) hreason
  duplicate hdescribes pair hfound := congrArg Answer.refused (htold hdescribes pair hfound)
  adds h := (nomatch h)
  refused _ := ⟨rfl, hpaths⟩
  keeps method template made h := by rwa [hpaths]

/-- Each outcome is told from the others by whether the registration is described and whether
something that it names is served. -/
theorem Tallies.registers (h : app.Tallies) (C : Classes) (group : RouteGroup)
    (spec : RouteDescription) :
    Registers C app group spec (app.perform C (.register group spec)).1
      (app.perform C (.register group spec)).2 := by
  cases h.outcome C group spec with
  | undescribed hnot e a hperform hdocument hpaths =>
    rw [hperform]
    exact registers_of_refused hpaths (fun h => hnot h.1) fun hdescribes => absurd hdescribes hnot
  | taken hdescribes pair hfound a hperform hdocument hpaths =>
    have hmem : pair ∈ named C group spec := List.mem_of_find?_eq_some hfound
    have hserved : pair ∈ app.pairs := by simpa using List.find?_some hfound
    rw [hperform]
    refine registers_of_refused hpaths (fun h => h.2 pair hmem hserved) fun _ other hother => ?_
    rw [hfound] at hother
    cases hother
    rfl
  | free hdescribes hfound a routes hroutes hperform hdocument hrecorded hkept =>
    have hnew : ∀ pair ∈ named C group spec, pair ∉ app.pairs := fun pair hpair hserved =>
      List.find?_eq_none.mp hfound pair hpair (decide_eq_true hserved)
    rw [hperform]
    refine ⟨iff_of_true rfl ⟨hdescribes, hnew⟩, fun _ pair hsome => ?_, fun _ => ?_,
      fun hnot => absurd rfl hnot, fun method template made hmade => ?_⟩
    · rw [hfound] at hsome
      cases hsome
    · rw [pairs, List.map_append, hroutes]
      rfl
    · have hserved : (method, template) ∈ app.pairs :=
        (h.recorded_iff method template).mp (Option.isSome_of_mem hmade)
      exact (hkept method template fun hnamed => hnew _ hnamed hserved).trans hmade

/-- Whatever was registered before, accepted or refused, an operation is recorded for just the
methods and templates that are served, and a registration is accepted exactly when it is described
and names nothing that is served already; it never replaces an operation. A method and a template
are served twice exactly when one accepted registration named them twice. -/
theorem registers_afterHistory (settings : Settings) (history : List (Classes × Action)) :
    let app := (ofSettings settings).afterHistory history
    (∀ method template, (Assembler.operationAt? app.assembler.paths method template).isSome ↔
        (method, template) ∈ app.pairs) ∧
      (app.pairs.Nodup ↔
        ∀ names ∈ (ofSettings settings).acceptedIn history, names.Nodup) ∧
      ∀ C group spec, Registers C app group spec (app.perform C (.register group spec)).1
        (app.perform C (.register group spec)).2 := by
  have hstart := tallies_ofSettings settings
  have htallies := hstart.afterHistory history
  have hnodup := hstart.nodup_pairs_iff history
  have hempty : (ofSettings settings).pairs.Nodup := List.nodup_nil
  exact ⟨htallies.recorded_iff, hnodup.trans (and_iff_right hempty), htallies.registers⟩

/-- A route under two paths that differ in nothing but the slashes around them. -/
def listPets : RouteDescription where
  method := "GET"
  path := .several ["/pets", "pets/"]
  handler := fun _ _ => .ok .null

/-- Both paths are one template, which is served twice; registered again, it is refused. -/
theorem registers_afterHistory_pets :
    let app := (ofSettings {}).afterHistory [({}, .register {} listPets)]
    app.pairs = [("get", "/pets"), ("get", "/pets")] ∧
      named {} {} listPets ∈ (ofSettings {}).acceptedIn [({}, .register {} listPets)] ∧
      (app.perform {} (.register {} listPets)).1 =
        .refused (.configuration (.duplicateRoute "GET" "/pets")) := by
  intro app
  obtain ⟨_, _, hregisters⟩ := registers_afterHistory {} [({}, .register {} listPets)]
  have hdescribes : Describes {} app {} listPets := ⟨_, _, _, _, rfl, rfl⟩
  refine ⟨rfl, List.mem_singleton.mpr rfl, ?_⟩
  exact (hregisters {} {} listPets).duplicate hdescribes ("get", "/pets") rfl

end Application

end HttpContract
