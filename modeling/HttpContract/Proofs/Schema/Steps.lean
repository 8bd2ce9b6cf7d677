import HttpContract.Schema.Parameter
import HttpContract.Proofs.Steadiness

/-!
# Steps of the schema builder

Whatever the builder makes, it only ever does five things: it gives a result, requires one, notes
what was looked up, gives out the reference to a class, and goes on with what it has. So what these
leave true is true throughout, and the result of a step is the same wherever the step begins.
-/

namespace HttpContract

namespace SchemaRegistry

/-- A name that is claimed gets an entry behind all others, or is the claiming class's already. -/
theorem reserve_eq_ok {r after : SchemaRegistry} {name owner : String} {isNew : Bool}
    (h : r.reserve name owner = .ok (isNew, after)) :
    after.frozen = r.frozen ∧
      ((isNew = true ∧ name ∉ r.entries.map (·.name) ∧
        after.entries = r.entries ++ [({ name, owner } : SchemaEntry)]) ∨
      (isNew = false ∧ owner ∈ r.entries.map (·.owner) ∧ after.entries = r.entries)) := by
  unfold reserve at h
  split at h
  · cases h
  · split at h
    · rename_i hf
      cases h
      refine ⟨rfl, Or.inl ⟨rfl, ?_, rfl⟩⟩
      rw [← contains_iff, contains, hf]
      simp
    · rename_i entry hf
      split at h
      · rename_i hentry
        cases h
        exact ⟨rfl, Or.inr
          ⟨rfl, hentry ▸ List.mem_map_of_mem (List.mem_of_find?_eq_some hf), rfl⟩⟩
      · cases h

/-- Completing a name that no entry has changes nothing. -/
theorem map_complete_of_notMem {entries : List SchemaEntry} {name : String} {schema : Schema}
    (hname : name ∉ entries.map (·.name)) :
    (entries.map fun entry =>
      if entry.name = name then { entry with schema := some schema } else entry) = entries := by
  refine (List.map_congr_left fun entry hentry => ?_).trans (List.map_id entries)
  have hother : entry.name ≠ name := by
    rintro rfl
    exact hname (List.mem_map_of_mem hentry)
  rw [if_neg hother]
  rfl

/-- Completing a name fills its entry and leaves those in front and behind as they are. -/
theorem entries_complete {r : SchemaRegistry} {front behind : List SchemaEntry}
    {name owner : String} {schema : Schema}
    (hentries : r.entries = front ++ { name, owner } :: behind)
    (hnodup : (r.entries.map (·.name)).Nodup) :
    (r.complete name schema).entries =
      front ++ { name, owner, schema := some schema } :: behind := by
  rw [hentries, List.map_append, List.map_cons, List.nodup_append, List.nodup_cons] at hnodup
  obtain ⟨_, ⟨hbehind, _⟩, hfront⟩ := hnodup
  have hfront : name ∉ front.map (·.name) := fun hmem =>
    hfront name hmem name List.mem_cons_self rfl
  rw [complete, hentries, List.map_append, List.map_cons, map_complete_of_notMem hfront,
    map_complete_of_notMem hbehind]
  simp

/-- Completing a name leaves the owners as they are. -/
theorem owners_complete (r : SchemaRegistry) (name : String) (schema : Schema) :
    (r.complete name schema).entries.map (·.owner) = r.entries.map (·.owner) := by
  rw [complete, List.map_map]
  refine List.map_congr_left fun entry _ => ?_
  rw [Function.comp_apply]
  split <;> rfl

end SchemaRegistry

namespace SchemaBuilder

variable {C : Classes} {α : Type}

/-- The builder with a reference to a class given out. -/
def referring (b : SchemaBuilder) (registry : SchemaRegistry) (className : String) :
    SchemaBuilder :=
  { b with registry, referenced := b.referenced ++ [className] }

/-- The builder with the schema of a reserved name. -/
def completing (b : SchemaBuilder) (name : String) (schema : Schema) : SchemaBuilder :=
  { b with registry := b.registry.complete name schema }

/-- The reference to a class was given out before, or else its name is reserved, and its body made
and completed when the name is new. -/
theorem run_named (className : String) (body : BuildSchema Schema) (b : SchemaBuilder) :
    (named C className body).run b =
      if className ∈ b.referenced then .ok (.ofReference (C.schemaNameOf className)) b
      else match b.registry.reserve (C.schemaNameOf className) className with
        | .error e => .error (.ofConfiguration e) b
        | .ok (false, registry) =>
          .ok (.ofReference (C.schemaNameOf className)) (b.referring registry className)
        | .ok (true, registry) =>
          match body.run (b.referring registry className) with
          | .ok s finish =>
            .ok (.ofReference (C.schemaNameOf className))
              (finish.completing (C.schemaNameOf className) s)
          | .error e finish => .error e finish := by
  have hcontains : b.referenced.contains className = decide (className ∈ b.referenced) := by simp
  unfold named
  rw [EStateM.run_bind, EStateM.run_get]
  dsimp only
  rw [hcontains]
  by_cases hknown : className ∈ b.referenced
  · rw [decide_eq_true hknown, if_pos hknown]
    rfl
  · rw [decide_eq_false hknown, if_neg hknown, if_neg Bool.false_ne_true, EStateM.run_bind,
      EStateM.run_get]
    dsimp only
    rw [EStateM.run_bind]
    cases b.registry.reserve (C.schemaNameOf className) className with
    | error e => rfl
    | ok answer =>
      obtain ⟨isNew, registry⟩ := answer
      cases isNew with
      | false => rfl
      | true =>
        dsimp only [configured, require, Body.configured, mapError_ok]
        rw [EStateM.run_pure]
        dsimp only
        rw [EStateM.run_bind, EStateM.run_modify]
        dsimp only
        rw [if_pos rfl, EStateM.run_bind, referring]
        cases body.run { b with registry, referenced := b.referenced ++ [className] } with
        | ok s finish => rfl
        | error e finish => rfl

/-- The reference to a class is always the same. -/
theorem eq_of_run_named {className : String} {body : BuildSchema Schema} {b after : SchemaBuilder}
    {s : Schema} (hrun : (named C className body).run b = .ok s after) :
    s = .ofReference (C.schemaNameOf className) := by
  rw [run_named] at hrun
  split at hrun
  · cases hrun
    rfl
  · split at hrun
    · cases hrun
    · cases hrun
      rfl
    · split at hrun <;> cases hrun
      rfl

/-- What holds of a run of steps whenever it holds of each of them: of results, of notes of what was
looked up, and of steps in a row. -/
structure Composable (P : ∀ α : Type, BuildSchema α → Prop) : Prop where
  pure : ∀ {α : Type} (a : α), P α (Pure.pure a)
  require : ∀ {α : Type} (result : Except Failure α), P α (SchemaBuilder.require result)
  ask : ∀ bases : List String, P Unit (SchemaBuilder.ask bases)
  bind : ∀ {α β : Type} {m : BuildSchema α} {k : α → BuildSchema β}, P α m → (∀ a, P β (k a)) →
    P β (m >>= k)

namespace Composable

variable {P : ∀ α : Type, BuildSchema α → Prop} {leaf : Leaf → BuildSchema Schema}

/-- What holds of each of several steps holds of them one after the other. -/
theorem mapM {α β : Type} (hP : Composable P) {f : α → BuildSchema β} (hf : ∀ x, P β (f x))
    (xs : List α) : P (List β) (xs.mapM f) := by
  induction xs with
  | nil =>
    rw [List.mapM_nil]
    exact hP.pure _
  | cons x rest ih =>
    rw [List.mapM_cons]
    exact hP.bind (hf x) fun _ => hP.bind ih fun _ => hP.pure _

/-- The schema of an enumeration is composed of results alone. -/
theorem enumerationBody (hP : Composable P) (C : Classes) (name : String) :
    P Schema (enumerationBody C name) :=
  hP.bind (hP.mapM (fun _ => hP.require _) _) fun _ => hP.pure _

/-- The schema of a type is composed around that of the form at its heart. -/
theorem typeSchema (hP : Composable P) (hleaf : ∀ form, P Schema (leaf form)) (type : TypeInfo) :
    P Schema (typeSchema leaf type) := by
  induction type with
  | leaf form nullable notes =>
    cases form with
    | scalar s => exact hP.pure _
    | any => exact hP.pure _
    | enumeration name | record name | polymorphic name =>
      exact hP.bind (hleaf _) fun _ => hP.pure _
  | array container item nullable notes ih => exact hP.bind ih fun _ => hP.pure _
  | map item nullable notes ih => exact hP.bind ih fun _ => hP.pure _

/-- The schema of a field is composed of that of its type and its default. -/
theorem fieldSchema (hP : Composable P) (hleaf : ∀ form, P Schema (leaf form)) (f : Field) :
    P Schema (fieldSchema C leaf f) := by
  refine hP.bind (hP.typeSchema hleaf f.type) fun s => ?_
  cases f.default with
  | none => exact hP.pure _
  | some value => exact hP.bind (hP.ask _) fun _ => hP.bind (hP.require _) fun _ => hP.pure _

/-- The schemas of fields are composed one after the other. -/
theorem fieldSchemas (hP : Composable P) (hleaf : ∀ form, P Schema (leaf form))
    (fields : List Field) : P (List (String × Schema)) (fieldSchemas C leaf fields) := by
  induction fields with
  | nil => exact hP.pure _
  | cons f rest ih => exact hP.bind (hP.fieldSchema hleaf f) fun _ => hP.bind ih fun _ => hP.pure _

/-- The schema of a record is composed of those of its fields. -/
theorem recordBody (hP : Composable P) (hleaf : ∀ form, P Schema (leaf form)) (name : String) :
    P Schema (recordBody C leaf name) := by
  refine hP.bind (hP.ask _) fun _ => hP.bind (hP.require _) fun parent => ?_
  refine hP.bind (hP.require _) fun shape =>
    hP.bind (hP.fieldSchemas hleaf shape.fields) fun _ => ?_
  cases parent with
  | none => exact hP.pure _
  | some h => exact hP.pure _

/-- The schema of a base is composed of the references to its variants. -/
theorem variantsBody (hP : Composable P) {record : String → BuildSchema Schema}
    (hrecord : ∀ name, P Schema (record name)) (h : Hierarchy) :
    P Schema (variantsBody C record h) := by
  have hvariants (variants : List (String × String)) :
      P (List Schema) (variantReferences record variants) := by
    induction variants with
    | nil => exact hP.pure _
    | cons variant rest ih =>
      exact hP.bind (hrecord variant.2) fun _ => hP.bind ih fun _ => hP.pure _
  exact hP.bind (hvariants h.variants) fun _ => hP.pure _

/-- The schema of a hint is composed of the references to forms. -/
theorem ofHint (hP : Composable P) (hleaf : ∀ form, P Schema (leafSchema C (greatestDepth C) form))
    (hint : Hint) : P Schema (ofHint C hint) :=
  hP.bind (hP.require _) fun type => hP.typeSchema hleaf type

end Composable

/-- What a step of the builder may be. -/
inductive Step (C : Classes) : {α : Type} → BuildSchema α → Prop
  | pure {α : Type} (a : α) : Step C (Pure.pure a)
  | require {α : Type} (result : Except Failure α) : Step C (require result)
  | ask (bases : List String) : Step C (ask bases)
  | named (className : String) {body : BuildSchema Schema} (hbody : Step C body) :
      Step C (named C className body)
  | bind {α β : Type} {m : BuildSchema α} {k : α → BuildSchema β} (hm : Step C m)
      (hk : ∀ a, Step C (k a)) : Step C (m >>= k)

namespace Step

/-- Steps are composed of steps. -/
theorem composable (C : Classes) : Composable fun _ m => Step C m where
  pure := .pure
  require := .require
  ask := .ask
  bind := .bind

/-- The reference to a form is made in steps, however deep bodies may be nested. -/
theorem leafSchema (C : Classes) (depth : Nat) (form : Leaf) :
    Step C (leafSchema C depth form) := by
  have hsteps := composable C
  induction depth generalizing form with
  | zero =>
    cases form with
    | enumeration name => exact .named name (hsteps.enumerationBody C name)
    | scalar s | any | record name | polymorphic name => exact .require (.error _)
  | succ depth ih =>
    cases form with
    | scalar s => exact .pure _
    | any => exact .pure _
    | enumeration name => exact .named name (hsteps.enumerationBody C name)
    | record name => exact .named name (hsteps.recordBody ih name)
    | polymorphic base =>
      refine (Step.ask _).bind fun _ => (Step.require _).bind fun h => ?_
      exact .named base (hsteps.variantsBody (fun name => ih (.record name)) h)

/-- The schema of a hint is made in steps. -/
theorem ofHint (C : Classes) (hint : Hint) : Step C (ofHint C hint) :=
  (composable C).ofHint (leafSchema C (greatestDepth C)) hint

/-- The schema of a field is made in steps. -/
theorem ofField (C : Classes) (f : Field) : Step C (ofField C f) :=
  (composable C).fieldSchema (leafSchema C (greatestDepth C)) f

/-- The parameter objects of bound fields are made in steps. -/
theorem ofEach (C : Classes) (bounds : List (BoundField ParameterParser)) :
    Step C (Parameter.ofEach C bounds) := by
  induction bounds with
  | nil => exact .pure _
  | cons bound rest ih =>
    refine Step.bind ?_ fun _ => ih.bind fun _ => .pure _
    unfold Parameter.ofBound
    dsimp only
    split
    · exact (Step.pure none).bind fun _ => (ofField C _).bind fun _ => .pure _
    · refine (Step.ask _).bind fun _ => (Step.require _).bind fun json => ?_
      exact (Step.pure (some json)).bind fun _ => (ofField C _).bind fun _ => .pure _

/-- The result of a step is the same wherever it begins. -/
theorem same {m : BuildSchema α} (h : Step C m) {b b' after after' : SchemaBuilder} {a a' : α}
    (hrun : m.run b = .ok a after) (hrun' : m.run b' = .ok a' after') : a = a' := by
  induction h generalizing b b' after after' with
  | pure a =>
    cases hrun
    cases hrun'
    rfl
  | require result =>
    cases result with
    | error e => cases hrun
    | ok a =>
      cases hrun
      cases hrun'
      rfl
  | ask bases => rfl
  | @named className body hbody ih =>
    exact (eq_of_run_named hrun).trans (eq_of_run_named hrun').symm
  | bind hm hk ihm ihk =>
    obtain ⟨c, between, hfirst, hrun⟩ := run_bind_eq_ok_iff.mp hrun
    obtain ⟨c', between', hfirst', hrun'⟩ := run_bind_eq_ok_iff.mp hrun'
    obtain rfl := ihm hfirst hfirst'
    exact ihk c hrun hrun'

end Step

/-- What is true of a builder and stays true when bases are looked up, a reference to a class is
given out, and a name that was new is completed. -/
structure Invariant (C : Classes) (I : SchemaBuilder → Prop) : Prop where
  ask : ∀ (b : SchemaBuilder) (bases : List String), I b → I { b with asked := b.asked ++ bases }
  refer : ∀ (b : SchemaBuilder) (className : String) (isNew : Bool) (registry : SchemaRegistry),
    className ∉ b.referenced →
    b.registry.reserve (C.schemaNameOf className) className = .ok (isNew, registry) →
    I b → I (b.referring registry className)
  complete : ∀ (b later : SchemaBuilder) (className : String) (registry : SchemaRegistry)
    (schema : Schema), className ∉ b.referenced →
    b.registry.reserve (C.schemaNameOf className) className = .ok (true, registry) →
    I b → I later → I (later.completing (C.schemaNameOf className) schema)

/-- The reference to a class keeps what its body keeps, and what stays true when the reference is
given out and when the body is completed. -/
theorem keeps_named {I : SchemaBuilder → Prop} {className : String} {body : BuildSchema Schema}
    (hrefer : ∀ (b : SchemaBuilder) (isNew : Bool) (registry : SchemaRegistry),
      className ∉ b.referenced →
      b.registry.reserve (C.schemaNameOf className) className = .ok (isNew, registry) →
      I b → I (b.referring registry className))
    (hbody : Keeps I body)
    (hcomplete : ∀ (b finish : SchemaBuilder) (registry : SchemaRegistry) (s : Schema),
      className ∉ b.referenced →
      b.registry.reserve (C.schemaNameOf className) className = .ok (true, registry) →
      I b → body.run (b.referring registry className) = .ok s finish → I finish →
      I (finish.completing (C.schemaNameOf className) s)) :
    Keeps I (named C className body) := by
  intro b after h hb
  rw [Ends, run_named] at h
  split at h
  · rcases h with ⟨_, ⟨⟩⟩ | ⟨_, ⟨⟩⟩
    exact hb
  · rename_i hnew
    split at h
    · rcases h with ⟨_, ⟨⟩⟩ | ⟨_, ⟨⟩⟩
      exact hb
    · rename_i registry hreserve
      rcases h with ⟨_, ⟨⟩⟩ | ⟨_, ⟨⟩⟩
      exact hrefer b false registry hnew hreserve hb
    · rename_i registry hreserve
      have hstart := hrefer b true registry hnew hreserve hb
      split at h
      · rename_i s finish hrun
        rcases h with ⟨_, ⟨⟩⟩ | ⟨_, ⟨⟩⟩
        have hfinish := hbody (Or.inl ⟨s, hrun⟩) hstart
        exact hcomplete b finish registry s hnew hreserve hb hrun hfinish
      · rename_i e finish hrun
        rcases h with ⟨_, ⟨⟩⟩ | ⟨_, ⟨⟩⟩
        exact hbody (Or.inr ⟨e, hrun⟩) hstart

/-- What is invariant is kept by every step. -/
theorem Step.keeps {I : SchemaBuilder → Prop} (hI : Invariant C I) {m : BuildSchema α}
    (h : Step C m) : Keeps I m := by
  induction h with
  | pure a => exact .pure a
  | require result =>
    cases result with
    | ok a => exact .pure a
    | error e =>
      rintro b after (⟨_, ⟨⟩⟩ | ⟨_, ⟨⟩⟩) hb
      exact hb
  | ask bases =>
    rintro b after (⟨_, ⟨⟩⟩ | ⟨_, ⟨⟩⟩) hb
    exact hI.ask b bases hb
  | bind _ _ ihm ihk => exact ihm.bind ihk
  | @named className body _ ih =>
    refine keeps_named (fun b isNew registry => hI.refer b className isNew registry) ih ?_
    intro b finish registry s hnew hreserve hb _ hfinish
    exact hI.complete b finish className registry s hnew hreserve hb hfinish

/-- What holds of a builder at any moment: the classes whose references were given out are those
that own an entry, in this order, and no two entries have one name. -/
structure Sound (b : SchemaBuilder) : Prop where
  owners : b.registry.entries.map (·.owner) = b.referenced
  names : (b.registry.entries.map (·.name)).Nodup

/-- A sound builder stays so when the reference to a new class is given out, and then has an entry
more. -/
theorem Sound.refer {b : SchemaBuilder} {className : String} {isNew : Bool}
    {registry : SchemaRegistry} (hsound : b.Sound) (hnew : className ∉ b.referenced)
    (hreserve : b.registry.reserve (C.schemaNameOf className) className = .ok (isNew, registry)) :
    (b.referring registry className).Sound ∧ isNew = true ∧
      C.schemaNameOf className ∉ b.registry.entries.map (·.name) ∧
      registry.entries = b.registry.entries ++
        [({ name := C.schemaNameOf className, owner := className } : SchemaEntry)] := by
  obtain ⟨hisNew, hname, hentries⟩ :=
    (SchemaRegistry.reserve_eq_ok hreserve).2.resolve_right fun hknown =>
      hnew (hsound.owners ▸ hknown.2.1)
  refine ⟨⟨?_, ?_⟩, hisNew, hname, hentries⟩
  · rw [referring, hentries, List.map_append, hsound.owners]
    rfl
  · rw [referring, hentries, List.map_append, List.nodup_append]
    refine ⟨hsound.names, by simp, ?_⟩
    rintro _ ha other hother rfl
    rw [List.map_singleton, List.mem_singleton] at hother
    subst hother
    exact hname ha

/-- A sound builder stays so when a schema is finished. -/
theorem Sound.complete {b : SchemaBuilder} (hsound : b.Sound) (name : String) (schema : Schema) :
    (b.completing name schema).Sound := by
  constructor
  · rw [completing, SchemaRegistry.owners_complete]
    exact hsound.owners
  · rw [completing, SchemaRegistry.names_complete]
    exact hsound.names

/-- Builders stay sound, and keep the entries that they have. -/
theorem invariant_sound (C : Classes) (front : List SchemaEntry) :
    Invariant C fun b => b.Sound ∧ front <+: b.registry.entries := by
  refine ⟨fun b bases h => ⟨⟨h.1.owners, h.1.names⟩, h.2⟩, ?_, ?_⟩
  · rintro b className isNew registry hnew hreserve ⟨hsound, hfront⟩
    obtain ⟨hafter, _, _, hentries⟩ := hsound.refer hnew hreserve
    refine ⟨hafter, hfront.trans ?_⟩
    rw [referring, hentries]
    exact List.prefix_append _ _
  · rintro b later className registry s hnew hreserve ⟨hsound, hfront⟩ ⟨hlater, behind, hbehind⟩
    obtain ⟨_, _, hname, _⟩ := hsound.refer hnew hreserve
    have hname : C.schemaNameOf className ∉ front.map (·.name) :=
      fun hmem => hname ((hfront.map _).subset hmem)
    refine ⟨hlater.complete _ _, ?_⟩
    rw [completing, SchemaRegistry.complete, ← hbehind, List.map_append,
      SchemaRegistry.map_complete_of_notMem hname]
    exact List.prefix_append _ _

end SchemaBuilder

end HttpContract
