import HttpContract.Proofs.Application.Recording

/-!
# What accepted registrations leave behind

Every accepted registration has its own methods and templates. Its operation is found under each of
them, as it stands under the last of its paths that gives the template, and the routes that are
served there read its parameters. Nothing else is ever recorded, and no later registration changes
any of it.
-/

namespace HttpContract

/-- Where an element of a list stands last. -/
theorem exists_last_index {α : Type} {x : α} {xs : List α} (hx : x ∈ xs) :
    ∃ index, xs[index]? = some x ∧ x ∉ xs.drop (index + 1) := by
  induction xs with
  | nil => cases hx
  | cons first rest ih =>
    by_cases hrest : x ∈ rest
    · obtain ⟨index, hindex, hlast⟩ := ih hrest
      exact ⟨index + 1, hindex, hlast⟩
    · obtain rfl | hmem := List.mem_cons.mp hx
      · exact ⟨0, rfl, hrest⟩
      · exact absurd hmem hrest

/-- An operation that is attached is found under each of its paths as it stands under the last alias
that gives this path. -/
theorem Assembler.operationAt?_withOperation_of_last {paths : List String} {method path : String}
    {made : Operation} {table : Table String PathItem} {index : Nat}
    (hpath : paths[index]? = some path) (hlast : path ∉ paths.drop (index + 1)) :
    operationAt? (withOperation paths method made table) (lowerText method) path =
      some (underAlias made index) := by
  obtain ⟨hindex, hget⟩ := List.getElem?_eq_some_iff.mp hpath
  have hentry : (paths.zip (attached paths made))[index]? = some (path, underAlias made index) := by
    rw [List.getElem?_zip_eq_some, hpath, attached, List.getElem?_map, List.getElem?_range hindex]
    exact ⟨rfl, rfl⟩
  have hkey : path ∉ Table.keys ((paths.zip (attached paths made)).drop (index + 1)) := by
    have hlength : paths.length ≤ (attached paths made).length := by simp [attached]
    rw [Table.keys, List.map_drop, List.map_fst_zip hlength]
    exact hlast
  rw [withOperation, operationAt?_foldl, if_pos rfl, Table.get?_reverse_of_last hentry hkey,
    Option.some_or]

/-- Attaching an operation keeps the paths distinct. -/
theorem Assembler.distinct_withOperation {paths : List String} {method : String} {made : Operation}
    {table : Table String PathItem} (h : table.Distinct) :
    (withOperation paths method made table).Distinct := by
  unfold withOperation
  generalize paths.zip (attached paths made) = entries
  induction entries generalizing table with
  | nil => exact h
  | cons entry rest ih => exact ih (h.update _ _)

/-- A registration that is asked for, with the classes that are described by then. -/
structure Registration where
  classes : Classes
  group : RouteGroup
  spec : RouteDescription

namespace Registration

/-- The methods with the templates that it names. -/
def named (r : Registration) : List (String × String) :=
  Application.named r.classes r.group r.spec

/-- Whether it names a method and a template under an index, and not again later. -/
def NamesLast (r : Registration) (index : Nat) (pair : String × String) : Prop :=
  r.named[index]? = some pair ∧ pair ∉ r.named.drop (index + 1)

/-- What it names stands under a last index. -/
theorem exists_namesLast {r : Registration} {pair : String × String} (h : pair ∈ r.named) :
    ∃ index, r.NamesLast index pair :=
  exists_last_index h

/-- Whether an application has a registration as it was accepted: with this binder, for which its
templates are right, and with this operation, which was described for it. -/
structure Stands (r : Registration) (binder : Option Binder) (made : Operation)
    (app : Application) : Prop where
  binder_eq : r.classes.binderOf r.spec.params = .ok binder
  fits : ∀ pair ∈ r.named, Application.checkPath binder pair.2 = .ok ()
  described : ∃ before after,
    (Application.described r.classes r.group r.spec binder).run before = .ok made after
  recorded : ∀ index method template, r.NamesLast index (method, template) →
    Assembler.operationAt? app.assembler.paths method template =
      some (Assembler.underAlias made index)
  reads : ∀ route ∈ app.routes, route.pair ∈ r.named → route.binder = binder

end Registration

namespace Application

/-- Whether an application has these registrations and nothing else, each of them apart from the
others. -/
structure Holds (app : Application) (accepted : List Registration) : Prop where
  stands : ∀ r ∈ accepted, ∃ binder made, r.Stands binder made app
  known : ∀ pair ∈ app.pairs, ∃ r ∈ accepted, pair ∈ r.named
  apart : accepted.Pairwise fun r s => r.named.Disjoint s.named
  distinct : app.assembler.paths.Distinct

/-- The registration that an action is, if it is accepted. -/
def registered (C : Classes) (app : Application) : Action → Option Registration
  | .register group spec =>
    match (app.perform C (.register group spec)).1 with
    | .accepted => some ⟨C, group, spec⟩
    | _ => none
  | _ => none

/-- The registrations of a history that are accepted, one by one. -/
def registeredIn (app : Application) : List (Classes × Action) → List Registration
  | [] => []
  | (C, action) :: rest =>
    (registered C app action).toList ++ registeredIn (app.perform C action).2 rest

variable {C : Classes} {app after : Application} {group : RouteGroup} {spec : RouteDescription}
  {accepted : List Registration}

/-- An operation that is described is made of its parameters and of what it is described by. -/
theorem described_eq_ok {binder : Option Binder} {before last : Assembler} {made : Operation}
    (h : (described C group spec binder).run before = .ok made last) :
    ∃ params between tags requestBody response,
      (Assembler.parameters C binder).run before = .ok params between ∧
        made = Assembler.operationOf params
          { spec.operation with tags := group.tags ++ spec.operation.tags } tags requestBody
          response := by
  obtain ⟨params, between, hparams, h⟩ := run_bind_eq_ok_iff.mp h
  rw [Assembler.operation_eq] at h
  obtain ⟨tags, _, _, h⟩ := run_bind_eq_ok_iff.mp h
  obtain ⟨requestBody, _, _, h⟩ := run_bind_eq_ok_iff.mp h
  obtain ⟨response, _, _, h⟩ := run_bind_eq_ok_iff.mp h
  obtain ⟨hmade, _⟩ := run_pure_eq_ok_iff.mp h
  exact ⟨params, between, tags, requestBody, response, hparams, hmade.symm⟩

/-- Each of several templates that are checked fits the binder. -/
theorem checkPath_of_mem {binder : Option Binder} {templates : List String}
    (h : checkPaths binder templates = .ok ()) :
    ∀ template ∈ templates, checkPath binder template = .ok () := by
  induction templates with
  | nil => exact fun _ hmem => (nomatch hmem)
  | cons first rest ih =>
    obtain ⟨_, hfirst, hrest⟩ := bind_eq_ok_iff.mp h
    exact List.forall_mem_cons.mpr ⟨hfirst, ih hrest⟩

/-- The templates of a prepared registration fit its binder. -/
theorem checkPaths_of_prepare {closed : Bool} {templates : List String} {binder : Option Binder}
    (h : prepare C closed group spec = .ok (templates, binder)) :
    checkPaths binder templates = .ok () := by
  obtain ⟨paths, _, h⟩ := bind_eq_ok_iff.mp h
  split at h
  · cases h
  · obtain ⟨made, _, h⟩ := bind_eq_ok_iff.mp h
    obtain ⟨_, hcheck, h⟩ := bind_eq_ok_iff.mp h
    cases h
    exact mapError_eq_ok_iff.mp hcheck

/-- What holds of the routes and of the operations holds on while both stay as they are. -/
theorem Holds.of_eq (h : app.Holds accepted) (hroutes : after.routes = app.routes)
    (hpaths : after.assembler.paths = app.assembler.paths) : after.Holds accepted := by
  refine ⟨fun r hr => ?_, fun pair hpair => ?_, h.apart, hpaths ▸ h.distinct⟩
  · obtain ⟨binder, made, hstands⟩ := h.stands r hr
    refine ⟨binder, made, hstands.binder_eq, hstands.fits, hstands.described, ?_, ?_⟩
    · rw [hpaths]
      exact hstands.recorded
    · rw [hroutes]
      exact hstands.reads
  · rw [pairs, hroutes] at hpair
    exact h.known pair hpair

variable {templates : List String} {binder : Option Binder} {made : Operation}

/-- Whether an application differs from another one by an operation under templates, and by the
routes for it. -/
structure Adds (app after : Application) (C : Classes) (spec : RouteDescription)
    (templates : List String) (binder : Option Binder) (made : Operation) : Prop where
  paths_eq : after.assembler.paths =
    Assembler.withOperation templates (lowerText spec.method) made app.assembler.paths
  routes_eq : after.routes = app.routes ++ templates.map (routeAt C spec binder)

/-- The methods and templates of the routes that are added are those of the registration. -/
theorem pairs_added (hprepare : prepare C app.closed group spec = .ok (templates, binder)) :
    (templates.map (routeAt C spec binder)).map Route.pair = named C group spec := by
  rw [named_of_prepare hprepare, List.map_map]
  rfl

/-- A registration stands on when another one is added that names nothing that it names. -/
theorem stands_of_adds {r : Registration} {others : Option Binder} {before : Operation}
    (h : r.Stands others before app) (hadds : app.Adds after C spec templates binder made)
    (hprepare : prepare C app.closed group spec = .ok (templates, binder))
    (hapart : r.named.Disjoint (named C group spec)) : r.Stands others before after := by
  refine ⟨h.binder_eq, h.fits, h.described, fun index method template hlast => ?_,
    fun route hroute hpair => ?_⟩
  · have hmem : (method, template) ∈ r.named := List.mem_of_getElem? hlast.1
    have hnot : ¬(method = lowerText (lowerText spec.method) ∧ template ∈ templates) := by
      rintro ⟨rfl, htemplate⟩
      refine hapart hmem ?_
      rw [named_of_prepare hprepare, lowerText_lowerText]
      exact List.mem_map_of_mem htemplate
    rw [hadds.paths_eq, ← h.recorded index method template hlast]
    exact Assembler.operationAt?_withOperation_of_notMem hnot
  · rw [hadds.routes_eq] at hroute
    obtain hroute | hroute := List.mem_append.mp hroute
    · exact h.reads route hroute hpair
    · refine absurd ?_ (hapart hpair)
      rw [← pairs_added hprepare]
      exact List.mem_map_of_mem hroute

/-- A registration that is added stands, if nothing that it names was served before. -/
theorem stands_added (hadds : app.Adds after C spec templates binder made)
    (hprepare : prepare C app.closed group spec = .ok (templates, binder)) {between : Assembler}
    (hmade : (described C group spec binder).run app.assembler = .ok made between)
    (hnew : ∀ pair ∈ named C group spec, pair ∉ app.pairs) :
    (Registration.mk C group spec).Stands binder made after := by
  have hnamed : (Registration.mk C group spec).named =
      templates.map fun template => (lowerText spec.method, template) := named_of_prepare hprepare
  refine ⟨(prepare_eq_ok hprepare).2, fun pair hpair => ?_, ⟨_, _, hmade⟩,
    fun index method template hlast => ?_, fun route hroute hpair => ?_⟩
  · rw [hnamed] at hpair
    obtain ⟨template, htemplate, rfl⟩ := List.mem_map.mp hpair
    exact checkPath_of_mem (checkPaths_of_prepare hprepare) template htemplate
  · obtain ⟨hindex, hbehind⟩ := hlast
    rw [hnamed, List.getElem?_map] at hindex
    rw [hnamed, ← List.map_drop] at hbehind
    obtain ⟨_, htemplate, heq⟩ := Option.map_eq_some_iff.mp hindex
    cases heq
    have hlast : template ∉ templates.drop (index + 1) := fun hmem =>
      hbehind (List.mem_map_of_mem hmem)
    -- The method is put in lower case once more where the operation is attached.
    have hfound :
        Assembler.operationAt? after.assembler.paths (lowerText (lowerText spec.method)) template =
          some (Assembler.underAlias made index) := by
      rw [hadds.paths_eq]
      exact Assembler.operationAt?_withOperation_of_last htemplate hlast
    rwa [lowerText_lowerText] at hfound
  · rw [hadds.routes_eq] at hroute
    obtain hroute | hroute := List.mem_append.mp hroute
    · have hserved : route.pair ∈ app.pairs := List.mem_map_of_mem hroute
      exact absurd hserved (hnew route.pair hpair)
    · obtain ⟨template, _, rfl⟩ := List.mem_map.mp hroute
      rfl

/-- An application has the registration that is added besides those before it, if nothing that it
names was served before. -/
theorem Holds.of_adds (h : app.Holds accepted) (htallies : app.Tallies)
    (hadds : app.Adds after C spec templates binder made)
    (hprepare : prepare C app.closed group spec = .ok (templates, binder)) {between : Assembler}
    (hmade : (described C group spec binder).run app.assembler = .ok made between)
    (hnew : ∀ pair ∈ named C group spec, pair ∉ app.pairs) :
    after.Holds (accepted ++ [⟨C, group, spec⟩]) := by
  have hapart (r : Registration) (hr : r ∈ accepted) :
      r.named.Disjoint (named C group spec) := by
    intro pair hpair hnamed
    obtain ⟨index, hlast⟩ := Registration.exists_namesLast hpair
    obtain ⟨_, made, hstands⟩ := h.stands r hr
    refine hnew pair hnamed ((htallies.recorded_iff pair.1 pair.2).mp ?_)
    rw [hstands.recorded index pair.1 pair.2 hlast]
    rfl
  refine ⟨fun r hr => ?_, fun pair hpair => ?_, ?_, ?_⟩
  · obtain hr | hr := List.mem_append.mp hr
    · obtain ⟨others, before, hstands⟩ := h.stands r hr
      exact ⟨others, before, stands_of_adds hstands hadds hprepare (hapart r hr)⟩
    · obtain rfl := List.mem_singleton.mp hr
      exact ⟨binder, made, stands_added hadds hprepare hmade hnew⟩
  · rw [pairs, hadds.routes_eq, List.map_append, pairs_added hprepare, List.mem_append] at hpair
    obtain hpair | hpair := hpair
    · obtain ⟨r, hr, hnamed⟩ := h.known pair hpair
      exact ⟨r, List.mem_append_left _ hr, hnamed⟩
    · exact ⟨⟨C, group, spec⟩, List.mem_append_right _ List.mem_cons_self, hpair⟩
  · rw [List.pairwise_append]
    refine ⟨h.apart, List.pairwise_singleton _ _, fun r hr s hs => ?_⟩
    obtain rfl := List.mem_singleton.mp hs
    exact hapart r hr
  · rw [hadds.paths_eq]
    exact Assembler.distinct_withOperation h.distinct

/-- Whatever is done, an application has what it had before, and the registration if it is
accepted. -/
theorem Holds.perform (h : app.Holds accepted) (htallies : app.Tallies) (C : Classes)
    (action : Action) :
    (app.perform C action).2.Holds (accepted ++ (registered C app action).toList) := by
  have hdocument : app.document.2.assembler.paths = app.assembler.paths := by
    unfold Application.document Assembler.finalize
    cases app.assembler.document <;> rfl
  cases action with
  | document =>
    have hsame : app.document.2.Holds (accepted ++ []) := by
      rw [List.append_nil]
      exact h.of_eq rfl hdocument
    exact hsame
  | request request =>
    have hsame : (app.perform C (.request request)).2.Holds (accepted ++ []) := by
      rw [List.append_nil]
      rcases perform_request_eq C app request with hafter | hafter
      · rwa [hafter]
      · rw [hafter]
        exact h.of_eq rfl hdocument
    exact hsame
  | register group spec =>
    cases htallies.outcome C group spec with
    | undescribed hnot e a hperform hdocument hpaths =>
      rw [registered, hperform, Option.toList_none, List.append_nil]
      exact h.of_eq rfl hpaths
    | taken hdescribes pair hfound a hperform hdocument hpaths =>
      rw [registered, hperform, Option.toList_none, List.append_nil]
      exact h.of_eq rfl hpaths
    | free hdescribes hfound a routes hroutes hperform hdocument hrecorded hothers =>
      have hnew : ∀ pair ∈ named C group spec, pair ∉ app.pairs := fun pair hpair hserved =>
        List.find?_eq_none.mp hfound pair hpair (decide_eq_true hserved)
      obtain ⟨templates, binder, made, between, hprepare, hmade⟩ := hdescribes
      have hperformed := htallies.perform_of_described hprepare hmade
      rw [hfound] at hperformed
      have haccepted : registered C app (.register group spec) = some ⟨C, group, spec⟩ := by
        rw [registered, hperform]
      rw [haccepted, hperformed]
      exact h.of_adds htallies ⟨rfl, rfl⟩ hprepare hmade hnew

/-- Whatever is done, an application has in the end what it had before, and every registration that
was accepted. -/
theorem Holds.afterHistory (h : app.Holds accepted) (htallies : app.Tallies)
    (history : List (Classes × Action)) :
    (app.afterHistory history).Holds (accepted ++ app.registeredIn history) := by
  induction history generalizing app accepted with
  | nil =>
    rw [registeredIn, List.append_nil]
    exact h
  | cons step rest ih =>
    rw [registeredIn, ← List.append_assoc]
    exact ih (h.perform htallies step.1 step.2) (htallies.perform step.1 step.2)

/-- An application that was just made has nothing. -/
theorem holds_ofSettings (settings : Settings) : (ofSettings settings).Holds [] :=
  ⟨fun _ h => (nomatch h), fun _ h => (nomatch h), .nil, List.nodup_nil⟩

/-- Whatever the history, an application has just the registrations that were accepted. -/
theorem holds_afterHistory (settings : Settings) (history : List (Classes × Action)) :
    ((ofSettings settings).afterHistory history).Holds
      ((ofSettings settings).registeredIn history) :=
  (holds_ofSettings settings).afterHistory (tallies_ofSettings settings) history

/-- An operation of the document is that of an accepted registration, as it stands under the last
of its indices for the method and the template. -/
theorem Holds.exists_of_operationAt? (h : app.Holds accepted) (htallies : app.Tallies)
    {method template : String} {shown : Operation}
    (hshown : Assembler.operationAt? app.document.1.paths method template = some shown) :
    ∃ r ∈ accepted, ∃ index binder made, r.Stands binder made app ∧
      r.NamesLast index (method, template) ∧ shown = Assembler.underAlias made index := by
  rw [htallies.document_eq.2] at hshown
  obtain ⟨r, hr, hnamed⟩ := h.known (method, template)
    ((htallies.recorded_iff method template).mp (Option.isSome_of_mem hshown))
  obtain ⟨binder, made, hstands⟩ := h.stands r hr
  obtain ⟨index, hlast⟩ := Registration.exists_namesLast hnamed
  rw [hstands.recorded index method template hlast] at hshown
  exact ⟨r, hr, index, binder, made, hstands, hlast, (Option.some.inj hshown).symm⟩

end Application

end HttpContract
