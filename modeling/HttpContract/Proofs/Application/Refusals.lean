import HttpContract.Proofs.Application.Comparing

/-!
# What a refused registration leaves behind

A registration that is refused changes no route and no path, but the tags and the named schemas that
it came to stay. Later answers show these and nothing else, as long as nothing is registered that
reserves one of the names left behind.
-/

namespace HttpContract

namespace Application

variable {C : Classes} {app after : Application} {group : RouteGroup} {spec : RouteDescription}

/-- What holds of an application at any moment: its builder is sound, and while it is open there is
no document, and schemas are collected. -/
structure Proper (C : Classes) (app : Application) : Prop where
  sound : app.assembler.builder.Sound
  collecting : app.closed = false →
    app.assembler.document = none ∧ app.assembler.builder.Collects C

/-- Assembling an operation keeps what is invariant of the builder. -/
theorem keeps_assemble {I : SchemaBuilder → Prop} (hI : SchemaBuilder.Invariant C I)
    (templates : List String) (binder : Option Binder) :
    Keeps (fun a => I a.builder) (assemble C group spec templates binder) :=
  ((step_described C group spec binder).keeps_builder hI).bind fun _ _ _ hends ha =>
    (congrArg I (Assembler.builder_addOperation hends)).mpr ha

/-- Assembling an operation makes no document. -/
theorem keeps_assemble_document (templates : List String) (binder : Option Binder) :
    Keeps (fun a => a.document = none) (assemble C group spec templates binder) := by
  refine Keeps.bind (fun a after hends ha => ?_) fun made a after hends ha => ?_
  · have hdocument : after.document.map Document.untagged = a.document.map Document.untagged :=
      congrArg (·.document) ((step_described C group spec binder).shell_eq hends)
    rw [ha] at hdocument
    exact Option.map_eq_none_iff.mp hdocument
  · rcases Assembler.ends_addOperation hends with rfl | rfl <;> exact ha

/-- Wherever assembling an operation ends, the application stays proper. -/
theorem Proper.assemble (h : app.Proper C) {templates : List String} {binder : Option Binder}
    {a : Assembler} (hends : Ends (assemble C group spec templates binder) app.assembler a)
    (routes : List Route) : Proper C { app with assembler := a, routes } := by
  constructor
  · have hinvariant := SchemaBuilder.invariant_sound C []
    exact (keeps_assemble hinvariant templates binder hends ⟨h.sound, List.nil_prefix⟩).1
  · intro hopen
    obtain ⟨hdocument, hcollects⟩ := h.collecting hopen
    exact ⟨keeps_assemble_document templates binder hends hdocument,
      keeps_assemble (SchemaBuilder.invariant_collects C) templates binder hends hcollects⟩

/-- Asked for its document an application stays proper. -/
theorem Proper.document (h : app.Proper C) : app.document.2.Proper C := by
  refine ⟨?_, fun hopen => by cases hopen⟩
  unfold Application.document Assembler.finalize
  cases app.assembler.document with
  | none => exact ⟨h.sound.owners, h.sound.names⟩
  | some d => exact h.sound

/-- Whatever is done, an application stays proper. -/
theorem Proper.perform (h : app.Proper C) (action : Action) :
    (app.perform C action).2.Proper C := by
  cases action with
  | document => exact h.document
  | request request =>
    change (app.dispatch C request).2.Proper C
    rcases dispatch_eq C app request with hafter | hafter
    · rwa [hafter]
    · rw [hafter]
      exact h.document
  | register group spec =>
    unfold Application.perform
    dsimp only
    split
    · rename_i hrun
      obtain ⟨_, _, added, _, _, hassemble, rfl⟩ := run_register_eq_ok hrun
      exact h.assemble (Or.inl ⟨added, hassemble⟩) _
    · rename_i e _ hrun
      rcases run_register_eq_error hrun with ⟨_, rfl⟩ | ⟨_, _, _, _, hassemble, rfl⟩
      · exact h
      · exact h.assemble (Or.inr ⟨e, hassemble⟩) _

/-- Every reachable application is proper. -/
theorem Reachable.proper (h : Reachable C app) : app.Proper C := by
  induction h with
  | start settings => exact ⟨⟨rfl, List.nodup_nil⟩, fun _ => ⟨rfl, rfl, by simp [ofSettings]⟩⟩
  | step _ action ih => exact ih.perform action

/-- What a refused registration leaves: the routes, and everything about the document but tags and
named schemas. Of the named schemas those that were there are still in front. -/
structure Leaves (app after : Application) : Prop where
  routes : after.routes = app.routes
  closed : after.closed = app.closed
  shell : after.assembler.shell = app.assembler.shell
  entries : app.assembler.builder.registry.entries <+: after.assembler.builder.registry.entries

/-- The names of the tags of a registration. -/
def tagNames (app : Application) (group : RouteGroup) (spec : RouteDescription) : List String :=
  (group.tags ++ spec.operation.tags).map fun source => (Tag.ofSource app.settings source).name

/-- The names that schemas are reserved under in one application and not in another one. -/
def added (app after : Application) : List String :=
  SchemaBuilder.added app.assembler.builder after.assembler.builder

/-- A registration that is refused before its operation is described leaves everything as it was.
Any refused one leaves all but tags and named schemas. Whatever is done later is answered as without
it, up to the tags that it came with and the schemas under the names that it reserved, as long as
the run without it reserves none of these names. And in any case answers are the same up to tags and
named schemas of documents, until a registration is accepted in one run and refused in the other. -/
theorem Reachable.refused_register (h : Reachable C app) {e : Failure}
    (hrefused : (register C group spec).run app = .error e after) :
    ((∃ e, prepare C app.closed group spec = .error e) → after = app) ∧
    app.Leaves after ∧
    (∀ later, ¬(app.performAll C later).Touches (app.added after) →
      List.Forall₂ (Answer.LikeWithout (app.tagNames group spec) (app.added after))
        (app.answers C later) (after.answers C later)) ∧
    ∀ later, CorrespondUntilSplit Answer.LikeInCore (app.answers C later)
      (after.answers C later) := by
  obtain ⟨hsound, hcollecting⟩ := h.proper
  rcases run_register_eq_error hrefused with ⟨_, rfl⟩ | ⟨templates, binder, a, hprepare, hrun, rfl⟩
  · have halike : after.Alike after := ⟨rfl, rfl, rfl⟩
    exact ⟨fun _ => rfl, ⟨rfl, rfl, rfl, List.prefix_rfl⟩,
      fun _ _ => List.forall₂_same.mpr fun answer _ => .refl answer, halike.answers⟩
  · have hopen := (prepare_eq_ok hprepare).1
    obtain ⟨hdocument, hcollects⟩ := hcollecting hopen
    have hdescribed := ends_described_of_error hrun
    have hstep := step_described C group spec binder
    have hshell := hstep.shell_eq hdescribed
    have hends : Ends (assemble C group spec templates binder) app.assembler a := Or.inr ⟨e, hrun⟩
    have hinvariant := SchemaBuilder.invariant_sound C app.assembler.builder.registry.entries
    obtain ⟨hafter, hentries⟩ :=
      keeps_assemble hinvariant templates binder hends ⟨hsound, List.prefix_rfl⟩
    -- Nothing is attached by a refused step, so all that is left comes from the description.
    have hhides : Hides C (app.tagNames group spec) (app.added { app with assembler := a }) app
        { app with assembler := a } := by
      refine .collecting rfl hopen hopen ⟨?_, hshell.symm, ?_, hdocument⟩
      · exact SchemaBuilder.hides_added hsound hcollects hafter
          (keeps_assemble (SchemaBuilder.invariant_collects C) templates binder hends hcollects)
          hentries
      · refine (hstep.filter_tags hdescribed fun source hsource => ?_).symm
        exact List.mem_map.mpr ⟨source, hsource, rfl⟩
    refine ⟨?_, ⟨rfl, rfl, hshell, hentries⟩, hhides.answers, ?_⟩
    · rintro ⟨e', he'⟩
      rw [hprepare] at he'
      cases he'
    · have halike : app.Alike { app with assembler := a } :=
        ⟨rfl, rfl, (Assembler.core_eq_of_shell_eq hshell).symm⟩
      exact halike.answers

/-- A record with a field of a type that has no schema. -/
def oddRecord : Classes :=
  ({} : Classes).define
    { name := "Odd", body := .record false,
      fields := [{ name := "f", hint := .builtin .complex, default := .required }] }

/-- A route that takes such a record, under a tag. -/
def takesOdd : RouteDescription where
  method := "post"
  path := .one "/odd"
  operation := { body := some (.named "Odd"), tags := [.name "odd"] }
  handler := fun _ _ => .ok .null

/-- A refused registration shows in later answers: its tag stands in the document, and the same
registration made again is accepted. -/
theorem exists_trace_of_refused_register :
    ∃ app e after, Reachable oddRecord app ∧
      (register oddRecord {} takesOdd).run app = .error e after ∧
      app.answers oddRecord [.document] ≠ after.answers oddRecord [.document] ∧
      app.answers oddRecord [.register {} takesOdd] ≠
        after.answers oddRecord [.register {} takesOdd] := by
  refine ⟨.ofSettings {}, _, _, .start {}, rfl, fun h => ?_, fun h => ?_⟩
  · have htags := congrArg (List.map fun
      | .document d => d.tags
      | _ => []) h
    cases htags
  · cases h

/-- A route without parameters and body, under a tag. -/
def ping : RouteDescription where
  method := "get"
  path := .one "/ping"
  operation := { tags := [.name "health"] }
  handler := fun _ _ => .ok .null

/-- A route that is registered twice is refused, and only its tag can be left of that. -/
theorem Reachable.refused_register_ping :
    let app := ((ofSettings {}).perform {} (.register {} ping)).2
    ∃ e after, Reachable {} app ∧ (Application.register {} {} ping).run app = .error e after ∧
      app.Leaves after ∧
      (∀ later, List.Forall₂ (Answer.LikeWithout ["health"] []) (app.answers {} later)
        (after.answers {} later)) ∧
      ∀ later, CorrespondUntilSplit Answer.LikeInCore (app.answers {} later)
        (after.answers {} later) := by
  intro app
  have hreachable : Reachable {} app := (Reachable.start {}).step _
  have hrefused : ∃ e after, (Application.register {} {} ping).run app = .error e after ∧
      app.added after = [] := ⟨_, _, rfl, rfl⟩
  obtain ⟨e, after, hrun, hadded⟩ := hrefused
  obtain ⟨_, hleaves, hwithout, hcore⟩ := hreachable.refused_register hrun
  rw [hadded] at hwithout
  refine ⟨e, after, hreachable, hrun, hleaves, fun later => hwithout later ?_, hcore⟩
  rintro ⟨_, _, ⟨⟩⟩

end Application

end HttpContract
