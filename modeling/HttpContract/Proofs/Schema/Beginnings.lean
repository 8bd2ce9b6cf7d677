import HttpContract.Proofs.Schema.BuildFailures

/-!
# How often bodies are begun

Classes may refer to each other in circles, yet every call on a schema builder comes to an end:
inside of a body one class less is unmet, so the depth that bodies are given is never used up, and
any greater one leads to the same. And no body is begun twice in the life of a builder. A reference
that was given out is never taken back, also when the body that it was given out for fails.
-/

namespace HttpContract

namespace SchemaBuilder

variable {C : Classes} {b after : SchemaBuilder} {α β : Type}

/-- A step takes back no reference. -/
theorem Step.grows {m : BuildSchema α} (h : Step C m) (hends : Ends m b after) :
    b.referenced ⊆ after.referenced := by
  have hinvariant : Invariant C fun later => b.referenced ⊆ later.referenced := by
    refine ⟨fun _ _ hsub => hsub, fun before name _ registry _ _ hsub => ?_,
      fun _ _ _ _ _ _ _ _ hsub => hsub⟩
    exact List.Subset.trans hsub (subset_referring before registry name)
  exact h.keeps hinvariant hends (List.Subset.refl _)

/-! ### Depth enough -/

/-- What is written as JSON does not fail for want of depth. -/
theorem toJson_ne_tooDeep (v : Value) : Body.toJson C v ≠ .error (.fault .tooDeep) := by
  intro h
  rcases Body.blocks_of_toJson h with ⟨c, hc⟩ | ⟨w, fault, heq, _, hformless | hlacks⟩
  · exact Failure.tooDeep_ne_ofConfiguration c hc
  · rcases Value.exists_of_formless? hformless with ⟨_, rfl⟩ | rfl <;> cases heq
  · cases hlacks
    cases heq

/-- A step that, begun with fewer classes unmet than a bound, does not fail for want of depth and
comes to the same as another one. -/
structure EndsAs (C : Classes) (bound : Nat) (m m' : BuildSchema α) : Prop where
  step : Step C m
  ends : ∀ ⦃b after⦄, (unmet C b).card < bound → m.run b ≠ .error (.fault .tooDeep) after
  same : ∀ ⦃b⦄, (unmet C b).card < bound → m.run b = m'.run b

namespace EndsAs

variable {bound : Nat}

/-- A result at once is there whatever is unmet. -/
theorem pure (a : α) : EndsAs C bound (Pure.pure a) (Pure.pure a) :=
  ⟨.pure a, fun _ _ _ h => (nomatch h), fun _ _ => rfl⟩

/-- A result that is required does not want depth when it does not say so itself. -/
theorem require {result : Except Failure α} (h : result ≠ .error (.fault .tooDeep)) :
    EndsAs C bound (SchemaBuilder.require result) (SchemaBuilder.require result) := by
  refine ⟨.require result, fun b after _ hrun => ?_, fun _ _ => rfl⟩
  exact h (run_require_eq_error_iff.mp hrun).1

/-- What must be configured does not want depth. -/
theorem configured (result : Except ConfigurationError α) :
    EndsAs C bound (SchemaBuilder.configured result) (SchemaBuilder.configured result) := by
  refine require fun h => ?_
  obtain ⟨c, hc⟩ := Body.exists_of_configured h
  exact Failure.tooDeep_ne_ofConfiguration c hc

/-- Noting what was looked up does not want depth. -/
theorem ask (bases : List String) :
    EndsAs C bound (SchemaBuilder.ask bases) (SchemaBuilder.ask bases) :=
  ⟨.ask bases, fun _ _ _ h => (nomatch h), fun _ _ => rfl⟩

/-- Steps in a row come to the same when each of them does: the first leaves no more classes unmet.
-/
theorem bind {m m' : BuildSchema α} {k k' : α → BuildSchema β} (hm : EndsAs C bound m m')
    (hk : ∀ a, EndsAs C bound (k a) (k' a)) : EndsAs C bound (m >>= k) (m' >>= k') := by
  have hbetween {b between : SchemaBuilder} {a : α} (hb : (unmet C b).card < bound)
      (hrun : m.run b = .ok a between) : (unmet C between).card < bound := by
    have hle := card_unmet_le (C := C) (hm.step.grows (Or.inl ⟨a, hrun⟩))
    omega
  refine ⟨hm.step.bind fun a => (hk a).step, fun b after hb hrun => ?_, fun b hb => ?_⟩
  · rcases run_bind_eq_error_iff.mp hrun with hfirst | ⟨a, between, hfirst, hsecond⟩
    · exact hm.ends hb hfirst
    · exact (hk a).ends (hbetween hb hfirst) hsecond
  · rw [EStateM.run_bind, EStateM.run_bind, ← hm.same hb]
    cases hrun : m.run b with
    | error e after => rfl
    | ok a between => exact (hk a).same (hbetween hb hrun)

/-- The references to a class come to the same when the bodies do with the classes that are unmet
inside of them. -/
theorem named {name : String} {body body' : BuildSchema Schema} {inner : Nat}
    (hbody : EndsAs C inner body body')
    (hinside : ∀ (b : SchemaBuilder) (registry : SchemaRegistry), name ∉ b.referenced →
      (unmet C b).card < bound → (unmet C (b.referring registry name)).card < inner) :
    EndsAs C bound (SchemaBuilder.named C name body) (SchemaBuilder.named C name body') := by
  refine ⟨.named name hbody.step, fun b after hb hrun => ?_, fun b hb => ?_⟩
  · obtain ⟨hnew, ⟨_, c, _, hc⟩ | ⟨registry, _, hmade⟩⟩ := run_named_eq_error_iff.mp hrun
    · exact Failure.tooDeep_ne_ofConfiguration c hc
    · exact hbody.ends (hinside b registry hnew hb) hmade
  · rw [run_named, run_named]
    by_cases hnew : name ∈ b.referenced
    · rw [if_pos hnew, if_pos hnew]
    · have hsame (registry : SchemaRegistry) :
          body.run (b.referring registry name) = body'.run (b.referring registry name) :=
        hbody.same (hinside b registry hnew hb)
      simp only [hsame]

/-- The reference to an enumeration does not want depth: there is nothing in its body. -/
theorem enumeration (name : String) :
    EndsAs C bound (SchemaBuilder.named C name (enumerationBody C name))
      (SchemaBuilder.named C name (enumerationBody C name)) := by
  refine ⟨.named name ((Step.composable C).enumerationBody C name), ?_, fun _ _ => rfl⟩
  intro b after _ hrun
  obtain ⟨_, ⟨_, c, _, hc⟩ | ⟨registry, _, hmade⟩⟩ := run_named_eq_error_iff.mp hrun
  · exact Failure.tooDeep_ne_ofConfiguration c hc
  · obtain ⟨_, _, _, _, _, _, _, _, hmember⟩ := run_enumerationBody_eq_error_iff.mp hmade
    exact toJson_ne_tooDeep _ hmember

variable {leaf leaf' : Leaf → BuildSchema Schema}

/-- The schemas of a type come to the same when those of the form at its heart do. -/
theorem typeSchema (hleaf : ∀ form, EndsAs C bound (leaf form) (leaf' form)) (type : TypeInfo) :
    EndsAs C bound (typeSchema leaf type) (typeSchema leaf' type) := by
  induction type with
  | leaf form nullable notes =>
    cases form with
    | scalar s => exact pure _
    | any => exact pure _
    | enumeration name | record name | polymorphic name => exact (hleaf _).bind fun _ => pure _
  | array container item nullable notes ih => exact ih.bind fun _ => pure _
  | map item nullable notes ih => exact ih.bind fun _ => pure _

/-- The schemas of a field come to the same when those of forms do. -/
theorem fieldSchema (hleaf : ∀ form, EndsAs C bound (leaf form) (leaf' form)) (f : Field) :
    EndsAs C bound (fieldSchema C leaf f) (fieldSchema C leaf' f) := by
  refine (typeSchema hleaf f.type).bind fun s => ?_
  cases f.default with
  | none => exact pure _
  | some value =>
    refine (ask _).bind fun _ => (require fun h => ?_).bind fun _ => pure _
    unfold defaultJson at h
    split at h
    · cases h
    · exact toJson_ne_tooDeep value h

/-- The bodies of a record come to the same when the schemas of forms do. -/
theorem recordBody (hleaf : ∀ form, EndsAs C bound (leaf form) (leaf' form)) (name : String) :
    EndsAs C bound (recordBody C leaf name) (recordBody C leaf' name) := by
  have hfields (fields : List Field) :
      EndsAs C bound (fieldSchemas C leaf fields) (fieldSchemas C leaf' fields) := by
    induction fields with
    | nil => exact pure _
    | cons f rest ih => exact (fieldSchema hleaf f).bind fun _ => ih.bind fun _ => pure _
  refine (ask _).bind fun _ => (configured _).bind fun parent => ?_
  refine (configured _).bind fun shape => (hfields shape.fields).bind fun _ => ?_
  cases parent with
  | none => exact pure _
  | some h => exact pure _

/-- The body of what is no class of the table fails before it comes to a form. -/
theorem recordBody_of_unknown {name : String} (hunknown : C.isKnown name = false)
    (leaf leaf' : Leaf → BuildSchema Schema) :
    EndsAs C bound (SchemaBuilder.recordBody C leaf name)
      (SchemaBuilder.recordBody C leaf' name) := by
  have hrecord : C.isRecord name = false := by
    by_contra h
    rw [Classes.isKnown_of_isRecord (by simpa using h)] at hunknown
    cases hunknown
  have hshape : ∃ e, C.shape name = .error e := by
    rw [Classes.shape, hrecord]
    exact ⟨_, rfl⟩
  obtain ⟨e, he⟩ := hshape
  refine (ask _).bind fun _ => (configured _).bind fun parent => ?_
  rw [he]
  exact configured (.error e)

/-- The bodies of a base come to the same when the references to its variants do. -/
theorem variantsBody {record record' : String → BuildSchema Schema}
    (hrecord : ∀ name, EndsAs C bound (record name) (record' name)) (h : Hierarchy) :
    EndsAs C bound (variantsBody C record h) (variantsBody C record' h) := by
  have hvariants (variants : List (String × String)) :
      EndsAs C bound (variantReferences record variants) (variantReferences record' variants) := by
    induction variants with
    | nil => exact pure _
    | cons variant rest ih => exact (hrecord variant.2).bind fun _ => ih.bind fun _ => pure _
  exact (hvariants h.variants).bind fun _ => pure _

/-- With fewer classes unmet than bodies may be nested deep, it does not matter how deep they may.
-/
theorem leafSchema (hC : C.Live) {depth depth' : Nat} (hle : depth ≤ depth') (form : Leaf) :
    EndsAs C depth (leafSchema C depth form) (leafSchema C depth' form) := by
  induction depth generalizing depth' form with
  | zero =>
    have hnone {b : SchemaBuilder} : ¬(unmet C b).card < 0 := Nat.not_lt_zero _
    exact ⟨.leafSchema C 0 form, fun _ _ hb => absurd hb hnone, fun _ hb => absurd hb hnone⟩
  | succ depth ih =>
    cases depth' with
    | zero => omega
    | succ depth' =>
      have hforms (form : Leaf) : EndsAs C depth (SchemaBuilder.leafSchema C depth form)
          (SchemaBuilder.leafSchema C depth' form) := ih (Nat.le_of_succ_le_succ hle) form
      -- The body of a class of the table meets it, and so may be nested less deep.
      have hinside {name : String} (hknown : C.isKnown name = true) (b : SchemaBuilder)
          (registry : SchemaRegistry) (hnew : name ∉ b.referenced)
          (hb : (unmet C b).card < depth + 1) :
          (unmet C (b.referring registry name)).card < depth := by
        have hless := card_unmet_referring hknown hnew registry
        omega
      cases form with
      | scalar s => exact pure _
      | any => exact pure _
      | enumeration name => exact enumeration name
      | record name =>
        cases hknown : C.isKnown name with
        | true => exact (recordBody hforms name).named (hinside hknown)
        | false =>
          have hbody : EndsAs C (depth + 1)
              (SchemaBuilder.recordBody C (SchemaBuilder.leafSchema C depth) name)
              (SchemaBuilder.recordBody C (SchemaBuilder.leafSchema C depth') name) :=
            recordBody_of_unknown hknown _ _
          refine hbody.named fun b registry _ hb => ?_
          exact (card_unmet_le (subset_referring b registry name)).trans_lt hb
      | polymorphic base =>
        refine (ask [base]).bind fun _ => ?_
        cases hbase : C.hierarchy base with
        | error e => exact configured (.error e)
        | ok h =>
          have hknown := hC.isKnown_of_hierarchy hbase
          exact (variantsBody (fun name => hforms (.record name)) h).named (hinside hknown)

end EndsAs

/-! ### Bodies begun -/

/-- The classes whose bodies are begun when a step runs from a builder, in this order. A body is
begun where the reference to its class is new and its name is free. -/
inductive Begins (C : Classes) : {α : Type} → BuildSchema α → SchemaBuilder → List String → Prop
  | pure {α : Type} (a : α) (b : SchemaBuilder) : Begins C (Pure.pure a) b []
  | require {α : Type} (result : Except Failure α) (b : SchemaBuilder) :
      Begins C (SchemaBuilder.require result) b []
  | ask (bases : List String) (b : SchemaBuilder) : Begins C (SchemaBuilder.ask bases) b []
  | known {name : String} (body : BuildSchema Schema) {b : SchemaBuilder}
      (hknown : name ∈ b.referenced) : Begins C (SchemaBuilder.named C name body) b []
  | taken {name : String} (body : BuildSchema Schema) {b : SchemaBuilder}
      (htaken : ∀ registry, b.registry.reserve (C.schemaNameOf name) name ≠ .ok (true, registry)) :
      Begins C (SchemaBuilder.named C name body) b []
  | begin {name : String} {body : BuildSchema Schema} {b : SchemaBuilder}
      {registry : SchemaRegistry} {begun : List String} (hnew : name ∉ b.referenced)
      (hreserve : b.registry.reserve (C.schemaNameOf name) name = .ok (true, registry))
      (hbody : Begins C body (b.referring registry name) begun) :
      Begins C (SchemaBuilder.named C name body) b (name :: begun)
  | fail {α β : Type} {m : BuildSchema α} (k : α → BuildSchema β) {b after : SchemaBuilder}
      {e : Failure} {begun : List String} (hm : Begins C m b begun)
      (hrun : m.run b = .error e after) : Begins C (m >>= k) b begun
  | bind {α β : Type} {m : BuildSchema α} {k : α → BuildSchema β} {b between : SchemaBuilder}
    {a : α}
      {first second : List String} (hm : Begins C m b first) (hrun : m.run b = .ok a between)
      (hk : Begins C (k a) between second) : Begins C (m >>= k) b (first ++ second)

/-- Of every step it can be told whose bodies it begins. -/
theorem Step.exists_begins {m : BuildSchema α} (h : Step C m) (b : SchemaBuilder) :
    ∃ begun, Begins C m b begun := by
  induction h generalizing b with
  | pure a => exact ⟨[], .pure a b⟩
  | require result => exact ⟨[], .require result b⟩
  | ask bases => exact ⟨[], .ask bases b⟩
  | @named name body _ ih =>
    by_cases hknown : name ∈ b.referenced
    · exact ⟨[], .known body hknown⟩
    · by_cases hfree : ∃ registry,
          b.registry.reserve (C.schemaNameOf name) name = .ok (true, registry)
      · obtain ⟨registry, hreserve⟩ := hfree
        obtain ⟨begun, hbody⟩ := ih (b.referring registry name)
        exact ⟨name :: begun, .begin hknown hreserve hbody⟩
      · exact ⟨[], .taken body (not_exists.mp hfree)⟩
  | @bind _ _ m k _ _ ihm ihk =>
    obtain ⟨first, hfirst⟩ := ihm b
    cases hrun : m.run b with
    | error e after => exact ⟨first, .fail k hfirst hrun⟩
    | ok a between =>
      obtain ⟨second, hsecond⟩ := ihk a between
      exact ⟨first ++ second, .bind hfirst hrun hsecond⟩

/-- Bodies that were begun once each between two builders: the references to their classes were
given out in between, and none was taken back. -/
structure Once (b : SchemaBuilder) (begun : List String) (after : SchemaBuilder) : Prop where
  grows : b.referenced ⊆ after.referenced
  new : ∀ name ∈ begun, name ∉ b.referenced
  met : ∀ name ∈ begun, name ∈ after.referenced
  nodup : begun.Nodup

namespace Once

variable {between : SchemaBuilder} {first second : List String}

/-- Where no body is begun it is enough that no reference is taken back. -/
theorem nil (h : b.referenced ⊆ after.referenced) : Once b [] after :=
  ⟨h, by simp, by simp, List.nodup_nil⟩

/-- Bodies begun once each, and then others, are begun once each: a reference that was given out
before is not new. -/
theorem trans (hfirst : Once b first between) (hsecond : Once between second after) :
    Once b (first ++ second) after := by
  refine ⟨List.Subset.trans hfirst.grows hsecond.grows, ?_, ?_, ?_⟩
  · intro name hname
    rcases List.mem_append.mp hname with hname | hname
    · exact hfirst.new name hname
    · exact fun hmem => hsecond.new name hname (hfirst.grows hmem)
  · intro name hname
    rcases List.mem_append.mp hname with hname | hname
    · exact hsecond.grows (hfirst.met name hname)
    · exact hsecond.met name hname
  · rw [List.nodup_append]
    refine ⟨hfirst.nodup, hsecond.nodup, ?_⟩
    rintro name hname _ hother rfl
    exact hsecond.new name hother (hfirst.met name hname)

end Once

/-- The classes that own the entries of the registry, in the order of reservation. -/
def entryOwners (b : SchemaBuilder) : List String := b.registry.entries.map (·.owner)

/-- Where the reference to a class is given out with a name that is free, an entry of it is added.
-/
theorem entryOwners_referring {name : String} {registry : SchemaRegistry} {isNew : Bool}
    (hreserve : b.registry.reserve (C.schemaNameOf name) name = .ok (isNew, registry)) :
    (b.referring registry name).entryOwners =
      b.entryOwners ++ if isNew then [name] else [] := by
  rw [entryOwners, referring]
  rcases (SchemaRegistry.reserve_eq_ok hreserve).2 with ⟨rfl, _, hentries⟩ | ⟨rfl, _, hentries⟩
  · simp [entryOwners, hentries]
  · simp [entryOwners, hentries]

/-- A builder that stays as it is begins nothing. -/
theorem once_self (b : SchemaBuilder) : Once b [] b ∧ b.entryOwners = b.entryOwners ++ [] :=
  ⟨.nil (List.Subset.refl _), (List.append_nil _).symm⟩

/-- Where the name of a class is not free nothing is begun. -/
theorem once_of_taken {name : String} {body : BuildSchema Schema}
    (htaken : ∀ registry, b.registry.reserve (C.schemaNameOf name) name ≠ .ok (true, registry))
    (hends : Ends (named C name body) b after) :
    Once b [] after ∧ after.entryOwners = b.entryOwners ++ [] := by
  rw [Ends, run_named] at hends
  split at hends
  · rcases hends with ⟨_, ⟨⟩⟩ | ⟨_, ⟨⟩⟩
    exact once_self b
  · split at hends
    · rcases hends with ⟨_, ⟨⟩⟩ | ⟨_, ⟨⟩⟩
      exact once_self b
    · rename_i registry hreserve
      rcases hends with ⟨_, ⟨⟩⟩ | ⟨_, ⟨⟩⟩
      exact ⟨.nil (subset_referring b registry name), entryOwners_referring hreserve⟩
    · rename_i registry hreserve
      exact absurd hreserve (htaken registry)

/-- Where a body is begun its class ends as the body does, with the same references and owners. -/
theorem exists_inside {name : String} {body : BuildSchema Schema} {registry : SchemaRegistry}
    (hnew : name ∉ b.referenced)
    (hreserve : b.registry.reserve (C.schemaNameOf name) name = .ok (true, registry))
    (hends : Ends (named C name body) b after) :
    ∃ finish, Ends body (b.referring registry name) finish ∧
      after.referenced = finish.referenced ∧ after.entryOwners = finish.entryOwners := by
  rw [Ends, run_named, if_neg hnew, hreserve] at hends
  dsimp only at hends
  cases hrun : body.run (b.referring registry name) with
  | ok s finish =>
    rw [hrun] at hends
    rcases hends with ⟨_, ⟨⟩⟩ | ⟨_, ⟨⟩⟩
    exact ⟨finish, Or.inl ⟨s, hrun⟩, rfl, SchemaRegistry.owners_complete _ _ _⟩
  | error e finish =>
    rw [hrun] at hends
    rcases hends with ⟨_, ⟨⟩⟩ | ⟨_, ⟨⟩⟩
    exact ⟨after, Or.inr ⟨e, hrun⟩, rfl, rfl⟩

/-- Whatever a step begins it begins once, and the entries added to the registry are those of the
classes whose bodies are begun, in this order. -/
theorem Begins.once {m : BuildSchema α} {begun : List String} (h : Begins C m b begun)
    (hends : Ends m b after) :
    Once b begun after ∧ after.entryOwners = b.entryOwners ++ begun := by
  induction h generalizing after with
  | pure a b =>
    rcases hends with ⟨_, ⟨⟩⟩ | ⟨_, ⟨⟩⟩
    exact once_self b
  | require result b =>
    cases result with
    | ok a | error e =>
      rcases hends with ⟨_, ⟨⟩⟩ | ⟨_, ⟨⟩⟩
      exact once_self b
  | ask bases b =>
    rcases hends with ⟨_, ⟨⟩⟩ | ⟨_, ⟨⟩⟩
    exact ⟨.nil (List.Subset.refl _), (List.append_nil _).symm⟩
  | known body hknown =>
    rw [Ends, run_named, if_pos hknown] at hends
    rcases hends with ⟨_, ⟨⟩⟩ | ⟨_, ⟨⟩⟩
    exact once_self _
  | taken body htaken => exact once_of_taken htaken hends
  | @begin name body b registry begun hnew hreserve _ ih =>
    have hfirst : Once b [name] (b.referring registry name) := by
      refine ⟨subset_referring b registry name, by simpa using hnew, ?_, List.nodup_singleton name⟩
      simp [referring]
    have howners : (b.referring registry name).entryOwners = b.entryOwners ++ [name] :=
      entryOwners_referring hreserve
    obtain ⟨finish, hbody, hreferenced, hfinish⟩ := exists_inside hnew hreserve hends
    obtain ⟨honce, hmore⟩ := ih hbody
    have hlast : Once finish [] after := .nil (hreferenced ▸ List.Subset.refl _)
    refine ⟨by simpa using (hfirst.trans honce).trans hlast, ?_⟩
    rw [hfinish, hmore, howners, List.append_assoc]
    rfl
  | fail k hm hrun ih =>
    rcases hends.bind with ⟨e, hfirst⟩ | ⟨a, between, hfirst, _⟩
    · exact ih (Or.inr ⟨e, hfirst⟩)
    · rw [hrun] at hfirst
      cases hfirst
  | bind hm hrun hk ihm ihk =>
    rcases hends.bind with ⟨e, hfirst⟩ | ⟨a, between, hfirst, hsecond⟩
    · rw [hrun] at hfirst
      cases hfirst
    · rw [hrun] at hfirst
      cases hfirst
      obtain ⟨hfirst, howners⟩ := ihm (Or.inl ⟨_, hrun⟩)
      obtain ⟨hsecond, hmore⟩ := ihk hsecond
      exact ⟨hfirst.trans hsecond, by rw [hmore, howners, List.append_assoc]⟩

end SchemaBuilder

/-- What a call does when bodies are nested no deeper than it is told. -/
def BuildCall.within (C : Classes) (depth : Nat) : BuildCall → BuildSchema Schema
  | .hint h => do
    let type ← SchemaBuilder.configured (Classes.typed (C.resolve h []))
    SchemaBuilder.typeSchema (SchemaBuilder.leafSchema C depth) type
  | .field f => SchemaBuilder.fieldSchema C (SchemaBuilder.leafSchema C depth) f

/-- A call is not kept from its end by the depth that bodies may be nested, and any greater one
comes to the same. -/
theorem BuildCall.endsAs {C : Classes} (hC : C.Live) {depth : Nat}
    (hdepth : SchemaBuilder.greatestDepth C ≤ depth) (call : BuildCall) :
    SchemaBuilder.EndsAs C (SchemaBuilder.greatestDepth C) (call.perform C)
      (call.within C depth) := by
  have hleaf := SchemaBuilder.EndsAs.leafSchema hC hdepth
  cases call with
  | hint h => exact (SchemaBuilder.EndsAs.configured _).bind fun type => .typeSchema hleaf type
  | field f => exact .fieldSchema hleaf f

namespace SchemaBuilder

/-- The life of a builder, with the classes whose bodies were begun in it: whatever classes are
described at the time, calls are made that end well or fail, and the registry may be used by others,
or frozen, in between. -/
inductive Life (start : SchemaBuilder) : List String → SchemaBuilder → Prop
  | start : Life start [] start
  | build {begun new : List String} {b after : SchemaBuilder} (C : Classes) (call : BuildCall)
      (hlife : Life start begun b) (hbegins : Begins C (call.perform C) b new)
      (hends : Ends (call.perform C) b after) : Life start (begun ++ new) after
  | share {begun : List String} {b : SchemaBuilder} (registry : SchemaRegistry)
      (hlife : Life start begun b) : Life start begun { b with registry }

/-- Whatever happens in the life of a builder, no body is begun twice in it. -/
theorem Life.once {start b : SchemaBuilder} {begun : List String} (h : Life start begun b) :
    Once start begun b := by
  induction h with
  | start => exact .nil (List.Subset.refl _)
  | build C call _ hbegins hends ih => exact ih.trans (hbegins.once hends).1
  | share registry _ ih => exact ⟨ih.grows, ih.new, ih.met, ih.nodup⟩

end SchemaBuilder

open SchemaBuilder in
/-- Making schemas comes to an end whatever classes are described and however they refer to each
other: from any builder every call does so before bodies are nested too deep, a greater depth would
lead to nothing else, and it can be told whose bodies it begins, which are the classes that get the
new entries. And over the whole life of a builder no body is begun twice, nor any of a class whose
reference was given out at the start. -/
theorem Classes.Live.builds_once {C : Classes} (hC : C.Live) :
    (∀ (call : BuildCall) (b : SchemaBuilder),
      (∀ after, (call.perform C).run b ≠ .error (.fault .tooDeep) after) ∧
      (∀ depth, greatestDepth C ≤ depth → (call.within C depth).run b = (call.perform C).run b) ∧
      ∃ begun, Begins C (call.perform C) b begun ∧ ∀ after, Ends (call.perform C) b after →
        after.entryOwners = b.entryOwners ++ begun) ∧
    ∀ start begun b, Life start begun b →
      begun.Nodup ∧ ∀ name ∈ begun, name ∉ start.referenced ∧ name ∈ b.referenced := by
  refine ⟨fun call b => ?_, fun start begun b hlife => ?_⟩
  · have hunmet := card_unmet_lt C b
    refine ⟨fun after => (call.endsAs hC le_rfl).ends hunmet, fun depth hdepth => ?_, ?_⟩
    · exact ((call.endsAs hC hdepth).same hunmet).symm
    · obtain ⟨begun, hbegins⟩ := (call.step_perform C).exists_begins b
      exact ⟨begun, hbegins, fun after hends => (hbegins.once hends).2⟩
  · have honce := hlife.once
    exact ⟨honce.nodup, fun name hname => ⟨honce.new name hname, honce.met name hname⟩⟩

/-- Trees whose forks hold two trees each, so that a variant holds its base. -/
def Classes.trees : Classes :=
  (({} : Classes).define
    { name := "Tree", body := .plain, notes := { discriminator := some "kind" } }).define
    { name := "Fork", bases := ["Tree"], body := .record false,
      fields := [
        { name := "left", hint := .named "Tree", default := .required },
        { name := "right", hint := .named "Tree", default := .required }] }

open SchemaBuilder in
/-- A base and a variant that holds it are begun once each, and neither when they are asked for
again. -/
theorem Classes.Live.builds_once_trees :
    ∃ b, Life {} (["Tree", "Fork"] ++ []) b ∧ b.entryOwners = ["Tree", "Fork"] := by
  have hlive : trees.Live := .define (.define .empty rfl (by simp)) rfl (by decide)
  let call := BuildCall.hint (.named "Tree")
  obtain ⟨s, b, hrun⟩ : ∃ s b, (call.perform trees).run {} = .ok s b := ⟨_, _, rfl⟩
  obtain ⟨t, later, hagain, howners, hsame⟩ : ∃ t later,
      (call.perform trees).run b = .ok t later ∧ b.entryOwners = ["Tree", "Fork"] ∧
        later.entryOwners = b.entryOwners := by
    cases hrun
    exact ⟨_, _, rfl, rfl, rfl⟩
  obtain ⟨_, _, begun, hbegins, hadded⟩ := hlive.builds_once.1 call {}
  obtain rfl : begun = ["Tree", "Fork"] := (hadded b (Or.inl ⟨s, hrun⟩)).symm.trans howners
  obtain ⟨_, _, more, hmore, hnothing⟩ := hlive.builds_once.1 call b
  obtain rfl : more = [] :=
    List.self_eq_append_right.mp (hsame.symm.trans (hnothing later (Or.inl ⟨t, hagain⟩)))
  have hlife : Life {} ["Tree", "Fork"] b := .build trees call .start hbegins (Or.inl ⟨s, hrun⟩)
  exact ⟨later, .build trees call hlife hmore (Or.inl ⟨t, hagain⟩), hsame.trans howners⟩

end HttpContract
