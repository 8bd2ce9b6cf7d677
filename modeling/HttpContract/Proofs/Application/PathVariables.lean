import HttpContract.Proofs.Parameters
import HttpContract.Proofs.Application.Accepting
import HttpContract.Proofs.Schema.Presence

/-!
# Path parameters are the variables of the path

A registration is refused unless the variables of each of its templates are the path parameters of
its shape, and a shape has each name once. All templates share the parameters that were made for the
first, so what was checked then holds of every operation of the document. Whether a parameter is
required follows its field, wherever it stands: a path parameter whose field has a default or allows
null is shown as optional, though no path is without it.
-/

namespace HttpContract

/-- The names of the path parameters among several, in order. -/
def Parameter.pathNames (params : List Parameter) : List String :=
  (params.filter (·.location = .path)).map (·.name)

/-- The fields that are read from the parameters of a request. -/
def Binder.fieldsOf (binder : Option Binder) : List (BoundField ParameterParser) :=
  match binder with
  | none => []
  | some b => b.fields

namespace Application

variable {C : Classes} {group : RouteGroup} {spec : RouteDescription} {binder : Option Binder}

/-- The path parameters of a binder are those of its fields. -/
theorem pathKeys_eq (binder : Option Binder) :
    pathKeys binder = ((Binder.fieldsOf binder).filter (·.location = .path)).map (·.key) := by
  cases binder <;> rfl

/-- The path parameters of a binder have distinct names. -/
theorem nodup_pathKeys {params : Option Hint} (h : C.binderOf params = .ok binder) :
    (pathKeys binder).Nodup := by
  cases binder with
  | none => exact List.nodup_nil
  | some b =>
    have hbinder := Classes.binder_of_binderOf h
    have hkey := Classes.key_of_binder hbinder
    have hpairs := (Classes.pairwise_wireName_of_binder hbinder).filter (·.location = .path)
    refine List.pairwise_map.mpr (hpairs.imp_of_mem fun {x y} hx hy hne heq => hne ?_)
    obtain ⟨hx, hxpath⟩ := List.mem_filter.mp hx
    obtain ⟨hy, hypath⟩ := List.mem_filter.mp hy
    rwa [hkey x hx, hkey y hy, of_decide_eq_true hxpath, of_decide_eq_true hypath] at heq

/-- The variables of a template that fits a binder are the path parameters. -/
theorem mem_pathKeys_iff {template : String} (h : checkPath binder template = .ok ())
    (name : String) : name ∈ pathKeys binder ↔ name ∈ (Template.parse template).names := by
  unfold checkPath at h
  dsimp only at h
  split at h
  · rename_i hempty
    rw [Bool.and_eq_true, List.isEmpty_iff, List.isEmpty_iff] at hempty
    obtain ⟨hmissing, hunused⟩ := hempty
    have hdeclared := List.filter_eq_nil_iff.mp hmissing name
    have hused := List.filter_eq_nil_iff.mp hunused name
    constructor
    · intro hmem
      simpa using hused hmem
    · intro hmem
      simpa using hdeclared hmem
  · cases h

/-- The operation that is described shows a parameter for each field of the binder. -/
theorem readsOff_described {before after : Assembler} {made : Operation}
    (h : (described C group spec binder).run before = .ok made after) :
    List.Forall₂ Parameter.ReadsOff made.parameters (Binder.fieldsOf binder) := by
  obtain ⟨params, between, _, _, _, hparams, rfl⟩ := described_eq_ok h
  cases binder with
  | none =>
    obtain ⟨rfl, _⟩ := run_pure_eq_ok_iff.mp hparams
    exact .nil
  | some b =>
    unfold Assembler.parameters at hparams
    rw [Assembler.run_building] at hparams
    split at hparams
    · rename_i hrun
      cases hparams
      exact Parameter.readsOff_ofEach hrun
    · cases hparams

/-- Parameters that stand for the fields of a binder have the names of its path parameters. -/
theorem pathNames_of_readsOff {params : List Parameter}
    {bounds : List (BoundField ParameterParser)}
    (h : List.Forall₂ Parameter.ReadsOff params bounds) :
    Parameter.pathNames params = (bounds.filter (·.location = .path)).map (·.key) := by
  induction h with
  | nil => rfl
  | @cons p bound _ _ hfirst _ ih =>
    unfold Parameter.pathNames at ih ⊢
    rw [List.filter_cons, List.filter_cons, hfirst.location_eq]
    split
    · rw [List.map_cons, List.map_cons, ih, hfirst.name_eq]
    · exact ih

/-- An operation stands under every path with the same parameters. -/
theorem parameters_underAlias (made : Operation) (index : Nat) :
    (Assembler.underAlias made index).parameters = made.parameters := by
  unfold Assembler.underAlias
  split <;> rfl

/-- Whether an operation shows the parameters of a route: as path parameters the variables of its
template, each of them once, and a parameter for each field that the route reads, which is required
exactly when null is not allowed for that field and it has no default. -/
structure ShowsParameters (shown : Operation) (route : Route) : Prop where
  nodup : (Parameter.pathNames shown.parameters).Nodup
  mem_iff : ∀ name, name ∈ Parameter.pathNames shown.parameters ↔
    name ∈ (Template.parse route.template).names
  fields : List.Forall₂ (fun (p : Parameter) (bound : BoundField ParameterParser) =>
      p.name = bound.key ∧ p.location = bound.location ∧
        (p.required = true ↔ bound.field.nullable = false ∧ bound.field.default = none))
    shown.parameters (Binder.fieldsOf route.binder)

/-- The operation of a registration shows the parameters of each route that it names. -/
theorem showsParameters_of_stands {app : Application} {r : Registration} {made : Operation}
    (h : r.Stands binder made app) (index : Nat) {route : Route} (hroute : route ∈ app.routes)
    (hpair : route.pair ∈ r.named) :
    ShowsParameters (Assembler.underAlias made index) route := by
  obtain ⟨before, after, hmade⟩ := h.described
  have hreads := readsOff_described hmade
  have hnames : Parameter.pathNames (Assembler.underAlias made index).parameters =
      pathKeys binder := by
    rw [parameters_underAlias, pathNames_of_readsOff hreads, pathKeys_eq]
  refine ⟨?_, fun name => ?_, ?_⟩
  · rw [hnames]
    exact nodup_pathKeys h.binder_eq
  · rw [hnames]
    exact mem_pathKeys_iff (h.fits _ hpair) name
  · rw [parameters_underAlias, h.reads route hroute hpair]
    refine hreads.imp fun p bound h => ⟨h.name_eq, h.location_eq, ?_⟩
    rw [h.required_eq]
    exact Classes.required_iff bound.field

/-- Whatever was registered before, accepted or refused, every operation of the document that is
given then has a route with its method and template, and it shows the parameters of every such
route: as path parameters exactly the variables of the template, each of them once. -/
theorem pathParameters_afterHistory (settings : Settings) (history : List (Classes × Action)) :
    let app := (ofSettings settings).afterHistory history
    ∀ method template shown,
      Assembler.operationAt? app.document.1.paths method template = some shown →
        (∃ route ∈ app.routes, route.pair = (method, template)) ∧
          ∀ route ∈ app.routes, route.pair = (method, template) →
            ShowsParameters shown route := by
  intro app method template shown hshown
  have htallies : app.Tallies := (tallies_ofSettings settings).afterHistory history
  have hholds : app.Holds ((ofSettings settings).registeredIn history) :=
    holds_afterHistory settings history
  have hserved : (method, template) ∈ app.pairs := by
    rw [← htallies.recorded_iff, ← htallies.document_eq.2]
    exact Option.isSome_of_mem hshown
  obtain ⟨r, _, index, binder, made, hstands, hlast, rfl⟩ :=
    hholds.exists_of_operationAt? htallies hshown
  refine ⟨List.mem_map.mp hserved, fun route hroute hpair => ?_⟩
  refine showsParameters_of_stands hstands index hroute ?_
  rw [hpair]
  exact List.mem_of_getElem? hlast.1

/-- A shape with two path parameters, one of them with a default. -/
def petShape : Classes :=
  let inPath : Hint := .annotated (.builtin .integer) [.parameter { location := .path }]
  ({} : Classes).define
    { name := "PetPath", body := .record false,
      fields := [
        { name := "shop", default := .required, hint := inPath },
        { name := "pet", default := .value (.int 3), hint := inPath }] }

/-- A route under two paths with both variables. -/
def petOfShop : RouteDescription where
  method := "GET"
  path := .several ["shops/\x7bshop\x7d/pets/\x7bpet\x7d", "pets/\x7bpet\x7d/of/\x7bshop\x7d"]
  params := some (.named "PetPath")
  handler := fun _ _ => .ok .null

/-- Under the second path too, the operation shows the parameters that the route reads. -/
theorem pathParameters_afterHistory_pets :
    let app := (ofSettings {}).afterHistory [(petShape, .register {} petOfShop)]
    ∃ shown, ∃ route ∈ app.routes, route.pair = ("get", "/pets/\x7bpet\x7d/of/\x7bshop\x7d") ∧
      Assembler.operationAt? app.document.1.paths "get" "/pets/\x7bpet\x7d/of/\x7bshop\x7d" =
        some shown ∧ ShowsParameters shown route := by
  intro app
  have hshown : ∃ shown, Assembler.operationAt? app.document.1.paths "get"
      "/pets/\x7bpet\x7d/of/\x7bshop\x7d" = some shown := ⟨_, rfl⟩
  obtain ⟨shown, hshown⟩ := hshown
  obtain ⟨⟨route, hroute, hpair⟩, hshows⟩ := pathParameters_afterHistory {}
    [(petShape, .register {} petOfShop)] "get" "/pets/\x7bpet\x7d/of/\x7bshop\x7d" shown hshown
  exact ⟨shown, route, hroute, hpair, hshown, hshows route hroute hpair⟩

/-- A path parameter whose field has a default is shown as optional. -/
theorem exists_optional_pathParameter :
    ∃ settings history method template shown,
      Assembler.operationAt? ((ofSettings settings).afterHistory history).document.1.paths
          method template = some shown ∧
        ∃ p ∈ shown.parameters, p.location = .path ∧ p.required = false :=
  ⟨{}, [(petShape, .register {} petOfShop)], "get", "/pets/\x7bpet\x7d/of/\x7bshop\x7d", _, rfl, _,
    List.mem_cons_of_mem _ List.mem_cons_self, rfl, rfl⟩

end Application

end HttpContract
