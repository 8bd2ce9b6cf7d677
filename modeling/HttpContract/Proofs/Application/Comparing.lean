import Mathlib.Data.List.Forall2
import HttpContract.Proofs.Application.Actions
import HttpContract.Proofs.Application.Assembling

/-!
# Two applications compared

Two applications that hold different tags and named schemas are compared over everything that is
done to both. When nothing else is different, their answers are the same up to the tags and named
schemas of documents, until a registration is accepted by one and refused by the other. This cannot
happen, and documents and refusals are the same up to what is hidden, when one of them holds hidden
tags and names that the other one does not have, as long as the other one does not come to reserve
a hidden name itself.
-/

namespace HttpContract

namespace Application

variable {C : Classes} {app other after : Application} {group : RouteGroup}
  {spec : RouteDescription} {templates : List String} {binder : Option Binder}
  {tags names : List String}

section Assemble

variable {a b a' b' : Assembler}

/-- The operation of a registration is described in steps. -/
theorem step_described (C : Classes) (group : RouteGroup) (spec : RouteDescription)
    (binder : Option Binder) :
    Assembler.Step C (group.tags ++ spec.operation.tags) (described C group spec binder) :=
  (Assembler.Step.parameters C _ binder).bind fun parameters =>
    Assembler.Step.operation C parameters
      { spec.operation with tags := group.tags ++ spec.operation.tags }

/-- A refused operation leaves its description behind, all else being as it was. -/
theorem ends_described_of_error {e : Failure}
    (h : (assemble C group spec templates binder).run a = .error e a') :
    Ends (described C group spec binder) a a' := by
  rcases run_bind_eq_error_iff.mp h with h | ⟨made, between, hmade, h⟩
  · exact Or.inr ⟨e, h⟩
  · rw [Assembler.eq_of_addOperation_eq_error h]
    exact Or.inl ⟨made, hmade⟩

/-- Operations that are attached by assemblers which differ in tags and named schemas only leave
them so. -/
theorem core_of_assemble (hcore : a.core = b.core) {added added' : List Operation}
    (h : (assemble C group spec templates binder).run a = .ok added a')
    (h' : (assemble C group spec templates binder).run b = .ok added' b') : a'.core = b'.core := by
  have hstep := step_described C group spec binder
  obtain ⟨made, between, hmade, h⟩ := run_bind_eq_ok_iff.mp h
  obtain ⟨made', between', hmade', h'⟩ := run_bind_eq_ok_iff.mp h'
  obtain rfl := hstep.same (congrArg (·.settings) hcore) hmade hmade'
  have hshell := Assembler.core_eq_of_shell_eq (hstep.shell_eq (Or.inl ⟨made, hmade⟩))
  have hshell' := Assembler.core_eq_of_shell_eq (hstep.shell_eq (Or.inl ⟨made, hmade'⟩))
  have hbetween : between.core = between'.core := hshell.trans (hcore.trans hshell'.symm)
  have hpaths : between.paths = between'.paths := congrArg (·.paths) hbetween
  rw [← (Assembler.addOperation_eq_ok h).2, ← (Assembler.addOperation_eq_ok h').2, hpaths]
  let table := Assembler.withOperation templates (lowerText spec.method) made between'.paths
  exact congrArg (fun c : Assembler => { c with paths := table }) hbetween

/-- Assembling an operation comes to the same from assemblers that differ in what is hidden, unless
it reserves a hidden name itself. -/
theorem follows_assemble (C : Classes) (group : RouteGroup) (spec : RouteDescription)
    (templates : List String) (binder : Option Binder) (tags names : List String) :
    Follows (Assembler.Hides C tags names) (Assembler.Touches names)
      (assemble C group spec templates binder) :=
  ((step_described C group spec binder).follows tags names).bind fun made =>
    Assembler.follows_addOperation C tags names templates (lowerText spec.method) made

end Assemble

/-- Whether two answers are the same, documents being seen through a view and failures compared as
they say. -/
inductive Answer.Like (view : Document → Document) (reason : Failure → Failure → Prop) :
    Answer → Answer → Prop
  | accepted : Like view reason .accepted .accepted
  | refused {e e' : Failure} (h : reason e e') : Like view reason (.refused e) (.refused e')
  | response (response : HttpResponse) : Like view reason (.response response) (.response response)
  | shown {d d' : Document} (h : view d = view d') :
      Like view reason (.response (.ofJsonText 200 (d.toText none)))
        (.response (.ofJsonText 200 (d'.toText none)))
  | document {d d' : Document} (h : view d = view d') :
      Like view reason (.document d) (.document d')

/-- Whether a registration is accepted here and refused there. -/
inductive Answer.Split : Answer → Answer → Prop
  | accepted (e : Failure) : Split .accepted (.refused e)
  | refused (e : Failure) : Split (.refused e) .accepted

/-- Whether answers correspond one by one, up to the first registration that is accepted here and
refused there. -/
inductive CorrespondUntilSplit (like : Answer → Answer → Prop) : List Answer → List Answer → Prop
  | nil : CorrespondUntilSplit like [] []
  | cons {x y : Answer} {rest rest' : List Answer} (h : like x y)
      (hrest : CorrespondUntilSplit like rest rest') :
      CorrespondUntilSplit like (x :: rest) (y :: rest')
  | split {x y : Answer} (h : x.Split y) (rest rest' : List Answer) :
      CorrespondUntilSplit like (x :: rest) (y :: rest')

/-- Answers that are the same but for the tags and the named schemas of documents, and for the
reasons of refusals. -/
abbrev Answer.LikeInCore : Answer → Answer → Prop := Like Document.core fun _ _ => True

/-- Answers that are the same but for certain tags and named schemas of documents. -/
abbrev Answer.LikeWithout (tags names : List String) : Answer → Answer → Prop :=
  Like (Document.without tags names) Eq

/-- An answer is like itself. -/
theorem Answer.Like.refl {view : Document → Document} (answer : Answer) :
    Answer.Like view Eq answer answer := by
  cases answer with
  | accepted => exact .accepted
  | refused e => exact .refused rfl
  | response response => exact .response response
  | document d => exact .document rfl

/-- Applications with the same routes and settings answer a request alike, and stay related, when
they do so if they are asked for their documents. -/
theorem like_dispatch {view : Document → Document} {reason : Failure → Failure → Prop}
    {R : Application → Application → Prop} (hroutes : app.routes = other.routes)
    (hsettings : app.settings = other.settings) (h : R app other)
    (hdocument : view app.document.1 = view other.document.1 ∧
      R app.document.2 other.document.2) (request : Request) :
    Answer.Like view reason (.response (app.dispatch C request).1)
        (.response (other.dispatch C request).1) ∧
      R (app.dispatch C request).2 (other.dispatch C request).2 := by
  have htarget : app.target request = other.target request := by
    unfold target select matching
    rw [hroutes, hsettings]
  unfold dispatch
  rw [htarget]
  cases other.target request with
  | error e => exact ⟨.response _, h⟩
  | ok target =>
    cases target with
    | document => exact ⟨.shown hdocument.1, hdocument.2⟩
    | page =>
      dsimp only
      rw [hsettings]
      exact ⟨.response _, h⟩
    | route r values =>
      dsimp only
      cases r.serve C request values with
      | error e => exact ⟨.response _, h⟩
      | ok response => exact ⟨.response _, h⟩

/-- Whether two applications differ in tags and named schemas only. -/
structure Alike (app other : Application) : Prop where
  routes : app.routes = other.routes
  closed : app.closed = other.closed
  core : app.assembler.core = other.assembler.core

/-- Asked for their documents, alike applications give documents with the same core and stay
alike. -/
theorem Alike.document (h : app.Alike other) :
    app.document.1.core = other.document.1.core ∧ app.document.2.Alike other.document.2 := by
  obtain ⟨hdocument, hafter⟩ := Assembler.core_finalize h.core
  exact ⟨hdocument, h.routes, rfl, hafter⟩

/-- What alike applications answer to a request is the same but for a document, and they stay
alike. -/
theorem Alike.dispatch (h : app.Alike other) (request : Request) :
    Answer.LikeInCore (.response (app.dispatch C request).1)
        (.response (other.dispatch C request).1) ∧
      (app.dispatch C request).2.Alike (other.dispatch C request).2 :=
  like_dispatch h.routes (congrArg (·.settings) h.core) h h.document request

/-- A registration is accepted by one of two alike applications and refused by the other, or else it
leaves them alike. -/
theorem Alike.register (h : app.Alike other) (group : RouteGroup) (spec : RouteDescription) :
    (app.perform C (.register group spec)).1.Split (other.perform C (.register group spec)).1 ∨
    (app.perform C (.register group spec)).1.LikeInCore
        (other.perform C (.register group spec)).1 ∧
      (app.perform C (.register group spec)).2.Alike
        (other.perform C (.register group spec)).2 := by
  have hshell {e : Failure} {templates : List String} {binder : Option Binder} {a a' : Assembler}
      (hrun : (assemble C group spec templates binder).run a = .error e a') : a'.core = a.core :=
    Assembler.core_eq_of_shell_eq
      ((step_described C group spec binder).shell_eq (ends_described_of_error hrun))
  unfold perform
  dsimp only
  rw [run_register, run_register, h.closed]
  cases prepare C other.closed group spec with
  | error e => exact Or.inr ⟨.refused trivial, h⟩
  | ok prepared =>
    obtain ⟨templates, binder⟩ := prepared
    dsimp only
    cases hrun : (assemble C group spec templates binder).run app.assembler with
    | error e a =>
      cases hrun' : (assemble C group spec templates binder).run other.assembler with
      | error e' a' =>
        refine Or.inr ⟨.refused trivial, h.routes, rfl, ?_⟩
        exact (hshell hrun).trans (h.core.trans (hshell hrun').symm)
      | ok added' a' => exact Or.inl (.refused e)
    | ok added a =>
      cases hrun' : (assemble C group spec templates binder).run other.assembler with
      | error e' a' => exact Or.inl (.accepted e')
      | ok added' a' =>
        refine Or.inr ⟨.accepted, ?_, rfl, core_of_assemble h.core hrun hrun'⟩
        exact congrArg (· ++ templates.map (routeAt C spec binder)) h.routes

/-- Whatever is done to both, alike applications answer alike until they split. -/
theorem Alike.answers (h : app.Alike other) (later : List Action) :
    CorrespondUntilSplit Answer.LikeInCore (app.answers C later) (other.answers C later) := by
  induction later generalizing app other with
  | nil => exact .nil
  | cons action rest ih =>
    cases action with
    | request request =>
      obtain ⟨hlike, hafter⟩ := h.dispatch (C := C) request
      exact .cons hlike (ih hafter)
    | document => exact .cons (.document h.document.1) (ih h.document.2)
    | register group spec =>
      rcases h.register (C := C) group spec with hsplit | ⟨hlike, hafter⟩
      · exact .split hsplit _ _
      · exact .cons hlike (ih hafter)

/-- Whether an application has reserved one of several names. -/
def Touches (names : List String) (app : Application) : Prop := app.assembler.Touches names

/-- Whether an application is another one that holds further tags and names, of those that are
hidden: while they are open, or once they gave their documents. -/
inductive Hides (C : Classes) (tags names : List String) (app other : Application) : Prop
  | collecting (hroutes : app.routes = other.routes) (hopen : app.closed = false)
      (hotherOpen : other.closed = false)
      (h : Assembler.Hides C tags names app.assembler other.assembler)
  | given (hroutes : app.routes = other.routes) (hsettings : app.settings = other.settings)
      (hclosed : app.closed = true) (hotherClosed : other.closed = true) {d d' : Document}
      (hd : app.assembler.document = some d) (hd' : other.assembler.document = some d')
      (h : d.without tags names = d'.without tags names)

/-- Asked for their documents, applications that differ in what is hidden give documents that do so,
and go on to. -/
theorem Hides.document (h : Hides C tags names app other) :
    app.document.1.without tags names = other.document.1.without tags names ∧
      Hides C tags names app.document.2 other.document.2 := by
  cases h with
  | collecting hroutes _ _ h =>
    have hpresent := h.present
    unfold Application.document
    rw [Assembler.finalize_of_none h.collecting, Assembler.finalize_of_none h.otherCollecting]
    exact ⟨hpresent, .given hroutes (congrArg (·.settings) h.shell) rfl rfl rfl rfl hpresent⟩
  | @given hroutes hsettings hclosed hotherClosed d d' hd hd' h =>
    unfold Application.document
    rw [Assembler.finalize_of_some hd, Assembler.finalize_of_some hd']
    exact ⟨h, .given hroutes hsettings rfl rfl hd hd' h⟩

/-- Applications that differ in what is hidden have the same routes and settings. -/
theorem Hides.routes_settings (h : Hides C tags names app other) :
    app.routes = other.routes ∧ app.settings = other.settings := by
  cases h with
  | collecting hroutes _ _ h => exact ⟨hroutes, congrArg (·.settings) h.shell⟩
  | given hroutes hsettings => exact ⟨hroutes, hsettings⟩

/-- What applications that differ in what is hidden answer to a request does so too, and they go on
to. -/
theorem Hides.dispatch (h : Hides C tags names app other) (request : Request) :
    Answer.LikeWithout tags names (.response (app.dispatch C request).1)
        (.response (other.dispatch C request).1) ∧
      Hides C tags names (app.dispatch C request).2 (other.dispatch C request).2 :=
  like_dispatch h.routes_settings.1 h.routes_settings.2 h h.document request

/-- A registration comes to the same in applications that differ in what is hidden, unless it
reserves a hidden name itself. -/
theorem Hides.register (h : Hides C tags names app other) (group : RouteGroup)
    (spec : RouteDescription)
    (hfree : ¬Touches names (app.perform C (.register group spec)).2) :
    (app.perform C (.register group spec)).1.LikeWithout tags names
        (other.perform C (.register group spec)).1 ∧
      Hides C tags names (app.perform C (.register group spec)).2
        (other.perform C (.register group spec)).2 := by
  revert hfree
  unfold perform
  dsimp only
  rw [run_register, run_register]
  cases h with
  | given hroutes hsettings hclosed hotherClosed hd hd' h =>
    rw [hclosed, hotherClosed]
    cases hprepare : prepare C true group spec with
    | error e =>
      exact fun _ => ⟨.refused rfl, .given hroutes hsettings hclosed hotherClosed hd hd' h⟩
    | ok prepared => cases (prepare_eq_ok hprepare).1
  | collecting hroutes hopen hotherOpen h =>
    rw [hopen, hotherOpen]
    cases prepare C false group spec with
    | error e => exact fun _ => ⟨.refused rfl, .collecting hroutes hopen hotherOpen h⟩
    | ok prepared =>
      obtain ⟨templates, binder⟩ := prepared
      dsimp only
      have hfollows := follows_assemble C group spec templates binder tags names
      cases hrun : (assemble C group spec templates binder).run app.assembler with
      | error e a =>
        intro hfree
        obtain ⟨a', hrun', h⟩ := hfollows.error h hrun hfree
        rw [hrun']
        exact ⟨.refused rfl, .collecting hroutes rfl rfl h⟩
      | ok added a =>
        intro hfree
        obtain ⟨a', hrun', h⟩ := hfollows.ok h hrun hfree
        rw [hrun']
        refine ⟨.accepted, .collecting ?_ rfl rfl h⟩
        exact congrArg (· ++ templates.map (routeAt C spec binder)) hroutes

/-- The document has no part in the names that are reserved. -/
theorem touches_document_iff : Touches names app.document.2 ↔ Touches names app := by
  unfold Application.document Assembler.finalize
  cases app.assembler.document with
  | none => exact Iff.rfl
  | some d => exact Iff.rfl

/-- Names that were reserved stay so, whatever is done. -/
theorem Touches.perform (h : Touches names app) (action : Action) :
    Touches names (app.perform C action).2 := by
  cases action with
  | document => exact touches_document_iff.mpr h
  | request request =>
    change Touches names (app.dispatch C request).2
    rcases dispatch_eq C app request with hafter | hafter
    · rwa [hafter]
    · rwa [hafter, touches_document_iff]
  | register group spec =>
    unfold Application.perform
    dsimp only
    have hstays (templates : List String) (binder : Option Binder) :=
      (follows_assemble C group spec templates binder [] names).stays
    split
    · rename_i hrun
      obtain ⟨_, _, added, _, _, hassemble, rfl⟩ := run_register_eq_ok hrun
      exact hstays _ _ (Or.inl ⟨added, hassemble⟩) h
    · rename_i e _ hrun
      rcases run_register_eq_error hrun with ⟨_, rfl⟩ | ⟨_, _, _, _, hassemble, rfl⟩
      · exact h
      · exact hstays _ _ (Or.inr ⟨e, hassemble⟩) h

/-- Names that were reserved stay so, whatever is done one after the other. -/
theorem Touches.performAll (h : Touches names app) (later : List Action) :
    Touches names (app.performAll C later) := by
  induction later generalizing app with
  | nil => exact h
  | cons action rest ih => exact ih (h.perform action)

/-- Whatever is done to both, applications that differ in what is hidden give answers that do so, as
long as the first one does not come to reserve a hidden name. -/
theorem Hides.answers (h : Hides C tags names app other) (later : List Action)
    (hfree : ¬Touches names (app.performAll C later)) :
    List.Forall₂ (Answer.LikeWithout tags names) (app.answers C later) (other.answers C later) := by
  induction later generalizing app other with
  | nil => exact .nil
  | cons action rest ih =>
    have hnow : ¬Touches names (app.perform C action).2 :=
      fun htouches => hfree (htouches.performAll rest)
    cases action with
    | request request =>
      obtain ⟨hlike, hafter⟩ := h.dispatch request
      exact .cons hlike (ih hafter hfree)
    | document => exact .cons (.document h.document.1) (ih h.document.2 hfree)
    | register group spec =>
      obtain ⟨hlike, hafter⟩ := h.register group spec hnow
      exact .cons hlike (ih hafter hfree)

end Application

end HttpContract
