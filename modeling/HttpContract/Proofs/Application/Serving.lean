import HttpContract.Proofs.Application.Actions
import HttpContract.Proofs.Application.Assembling
import HttpContract.Proofs.Application.Targets
import HttpContract.Proofs.Binding

/-!
# Requests that end in a server error

A client alone can make a request end in status 500. The parameters of a registered route whose
classes have no checks of their own are read or refused, but for a bound of too many digits that a
refusal cannot show. Once they are read, the request ends in status 500 when its body is nested
deeper than there is room to read it, or is a JSON value that trips its reader.
-/

namespace HttpContract

namespace Route

/-- Whether the binder of a route is what is made of its parameters. -/
def Registered (C : Classes) (r : Route) : Prop :=
  ∃ params, C.binderOf params = .ok r.binder

/-- Whether the classes of the parameters have no checks of their own. -/
def Unchecked (C : Classes) (r : Route) : Prop :=
  ∀ b, r.binder = some b → C.Unchecked (.leaf (.record b.shape.className) false [])

/-- Whether a request is one whose parameters are bound and whose body cannot be decoded. -/
def Breaks (C : Classes) (r : Route) (request : Request) (values : List String) : Prop :=
  (∀ b, r.binder = some b → ∃ params, b.bind C (r.rawRequest request values) = .ok params) ∧
    ∃ hint p, r.body = some hint ∧ request.body.filter (fun p => !p.isEmpty) = some p ∧
      Body.Undecodable (fun c v => c.Breaks v ∧ ¬c.namesCharacter) C request.room p hint

variable {J : Judgement} {C : Classes} {r : Route} {request : Request} {values : List String}

/-- The parameters that a route binds, null when it has none. -/
def boundParams (C : Classes) (r : Route) (request : Request) (values : List String) :
    Except Failure Value :=
  match r.binder with
  | none => .ok .null
  | some b => b.bind C (r.rawRequest request values)

end Route

namespace Application

variable {C : Classes} {app : Application}

/-- Every route of a reachable application was registered. -/
theorem Reachable.registered (h : Reachable C app) : ∀ r ∈ app.routes, r.Registered C :=
  h.forall_routes fun _ _ spec _ _ hprepare _ _ => ⟨spec.params, (prepare_eq_ok hprepare).2⟩

/-- The route that a request is for is one of the routes. -/
theorem mem_of_target {request : Request} {r : Route} {values : List String}
    (h : app.target request = .ok (.route r values)) : r ∈ app.routes :=
  (match?_of_target h).1

end Application

end HttpContract
