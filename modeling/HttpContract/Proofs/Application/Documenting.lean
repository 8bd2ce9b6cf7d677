import HttpContract.Proofs.Application.Recording
import HttpContract.Proofs.Application.Serving
import HttpContract.Proofs.Schema.Presence

/-!
# What is served is documented

A document writes, for each path, the operations of the seven methods that a path item has room for.
For these methods it shows just what is served; a route of any other method is served and not shown.
-/

namespace HttpContract

/-- A table that is made key by key leads each of the keys to what was made of it. -/
theorem Table.get?_filterMap {κ ν : Type} [DecidableEq κ] (key : κ) (keys : List κ)
    (make : κ → Option ν) :
    Table.get? key (keys.filterMap fun k => (make k).map (k, ·)) =
      if key ∈ keys then make key else none := by
  induction keys with
  | nil => rfl
  | cons first rest ih =>
    cases hmade : make first with
    | none =>
      by_cases hkey : first = key
      · subst hkey
        simp [hmade, ih]
      · simp [hmade, ih, Ne.symm hkey]
    | some value =>
      by_cases hkey : first = key
      · subst hkey
        simp [hmade, Table.get?]
      · simp [hmade, ih, hkey, Ne.symm hkey, Table.get?]

/-- A path item shows its operations of the methods that it has room for. -/
theorem PathItem.get?_documented (item : PathItem) (method : String) :
    Table.get? method item.documented =
      if method ∈ documentedMethods then Table.get? method item else none :=
  Table.get?_filterMap method documentedMethods fun method => Table.get? method item

namespace Document

/-- What is written of the operation for a method of a path. -/
def operationJson? (d : Document) (method path : String) : Option Json :=
  ((d.toJson.member? "paths").bind (Json.member? path)).bind (Json.member? method)

/-- The paths stand under their own key. -/
theorem member?_paths_toJson (d : Document) :
    d.toJson.member? "paths" =
      some (.object (d.paths.map fun (path, item) => (path, item.toJson))) := by
  rw [toJson, Json.member?]
  simp [Table.get?_append, Json.get?_nonempty, Table.get?]

/-- What is written is the operation that the paths have, if a path item has room for its method. -/
theorem operationJson?_eq (d : Document) (method path : String) :
    d.operationJson? method path =
      if method ∈ documentedMethods then
        (Assembler.operationAt? d.paths method path).map Operation.toJson
      else none := by
  have hitem (item : PathItem) : item.toJson.member? method =
      if method ∈ documentedMethods then (Table.get? method item).map Operation.toJson
      else none := by
    rw [PathItem.toJson, Json.member?, Table.get?_map, item.get?_documented]
    split <;> rfl
  rw [operationJson?, member?_paths_toJson, Option.bind_some, Json.member?, Table.get?_map]
  unfold Assembler.operationAt?
  cases Table.get? path d.paths with
  | none => simp
  | some item => simp [hitem]

end Document

namespace Application

variable {app : Application}

/-- The document shows an operation where a route is served, if a path item has room for the
method. -/
theorem Tallies.isSome_operationJson?_document (h : app.Tallies) (method template : String) :
    (app.document.1.operationJson? method template).isSome ↔
      method ∈ documentedMethods ∧ (method, template) ∈ app.pairs := by
  rw [Document.operationJson?_eq, h.document_eq.2, ← h.recorded_iff]
  split
  · rename_i hmethod
    rw [Option.isSome_map, and_iff_right hmethod]
  · rename_i hmethod
    exact iff_of_false Bool.false_ne_true fun hboth => hmethod hboth.1

/-- Whatever was registered before, accepted or refused, the document that is given then shows an
operation for just the methods and templates of the routes whose method a path item has room for.
So every such route that a request can be for is documented, and every documented operation is
served. -/
theorem documented_afterHistory (settings : Settings) (history : List (Classes × Action)) :
    let app := (ofSettings settings).afterHistory history
    (∀ method template, (app.document.1.operationJson? method template).isSome ↔
      method ∈ documentedMethods ∧
        ∃ r ∈ app.routes, r.method = method ∧ r.template = template) ∧
      ∀ request r values, app.target request = .ok (.route r values) →
        ((app.document.1.operationJson? r.method r.template).isSome ↔
          r.method ∈ documentedMethods) := by
  intro app
  have htallies : app.Tallies := (tallies_ofSettings settings).afterHistory history
  have hserved (method template : String) : (method, template) ∈ app.pairs ↔
      ∃ r ∈ app.routes, r.method = method ∧ r.template = template := by
    rw [pairs, List.mem_map]
    exact exists_congr fun r => and_congr_right fun _ => Prod.ext_iff
  refine ⟨fun method template => ?_, fun request r values htarget => ?_⟩
  · rw [htallies.isSome_operationJson?_document, hserved]
  · rw [htallies.isSome_operationJson?_document, hserved]
    exact and_iff_left ⟨r, mem_of_target htarget, rfl, rfl⟩

/-- A route of the method that asks what there is. -/
def headOfPets : RouteDescription where
  method := "HEAD"
  path := .one "pets"
  handler := fun _ _ => .ok .null

/-- Its route is served and documented, for its own method only. -/
theorem documented_afterHistory_pets :
    let app := (ofSettings {}).afterHistory [({}, .register {} headOfPets)]
    ∃ r values, app.target { method := "head", path := "/pets" } = .ok (.route r values) ∧
      (app.document.1.operationJson? "head" "/pets").isSome ∧
      app.document.1.operationJson? "get" "/pets" = none := by
  intro app
  have htarget : ∃ r values, app.target { method := "head", path := "/pets" } =
      .ok (.route r values) ∧ r.method = "head" ∧ r.template = "/pets" := ⟨_, _, rfl, rfl, rfl⟩
  obtain ⟨r, values, htarget, hmethod, htemplate⟩ := htarget
  obtain ⟨hdocumented, hserved⟩ := documented_afterHistory {} [({}, .register {} headOfPets)]
  refine ⟨r, values, htarget, ?_, ?_⟩
  · rw [← hmethod, ← htemplate, hserved _ r values htarget, hmethod]
    decide
  · rw [← Option.not_isSome_iff_eq_none, hdocumented]
    rintro ⟨_, other, hother, hget, _⟩
    have hroutes : app.routes.map (·.method) = ["head"] := rfl
    have hmem : other.method ∈ app.routes.map (·.method) := List.mem_map_of_mem hother
    rw [hroutes, hget] at hmem
    simp at hmem

/-- A route of a method that a path item has no room for. -/
def tunnel : RouteDescription where
  method := "connect"
  path := .one "/tunnel"
  handler := fun _ _ => .ok (.text "open")

/-- Such a route is served, and the document shows nothing of it. -/
theorem exists_route_not_documented :
    ∃ settings history request r values,
      let app := (ofSettings settings).afterHistory history
      app.target request = .ok (.route r values) ∧
        app.document.1.operationJson? r.method r.template = none :=
  ⟨{}, [({}, .register {} tunnel)], { method := "CONNECT", path := "/tunnel" }, _, _, rfl, rfl⟩

end Application

end HttpContract
