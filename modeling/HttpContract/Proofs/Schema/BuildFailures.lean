import HttpContract.Proofs.Resolving
import HttpContract.Proofs.Body.Writing
import HttpContract.Proofs.Schema.Histories
import Mathlib.Data.Finset.Card

/-!
# How making schemas fails

Making a schema fails as describing classes does, or as the writing of values does: of the members
of an enumeration whose body is begun, whose faults are passed on as they are, and of defaults,
where the fault of a value that is no JSON value becomes a configuration error. So one member
without JSON form is enough for a failure that is no configuration error, wherever the enumeration
stands in a hint.

That bodies are never nested too deep is a matter of counting. Every body that is begun is that of a
class of the table, and gives out the reference to this class, which was not given out before: of
the classes whose references are not given out there is one less inside of it.
-/

namespace HttpContract

namespace SchemaBuilder

variable {C : Classes} {b after : SchemaBuilder}

/-- The classes of a table whose references were not given out. -/
def unmet (C : Classes) (b : SchemaBuilder) : Finset String :=
  (C.entries.map (·.definition.name)).toFinset \ b.referenced.toFinset

/-- Bodies may be nested deeper than there are classes unmet. -/
theorem card_unmet_lt (C : Classes) (b : SchemaBuilder) : (unmet C b).card < greatestDepth C := by
  have hsub : (unmet C b).card ≤ (C.entries.map (·.definition.name)).toFinset.card :=
    Finset.card_le_card Finset.sdiff_subset
  have hlength : (C.entries.map (·.definition.name)).toFinset.card ≤ C.entries.length := by
    simpa using List.toFinset_card_le (C.entries.map (·.definition.name))
  rw [greatestDepth]
  omega

/-- Giving out more references leaves no more classes unmet. -/
theorem card_unmet_le (h : b.referenced ⊆ after.referenced) :
    (unmet C after).card ≤ (unmet C b).card := by
  apply Finset.card_le_card
  apply Finset.sdiff_subset_sdiff (Finset.Subset.refl _)
  intro name hname
  rw [List.mem_toFinset] at hname ⊢
  exact h hname

/-- Giving out the reference to a class of the table leaves one class less unmet. -/
theorem card_unmet_referring {name : String} (hknown : C.isKnown name = true)
    (hnew : name ∉ b.referenced) (registry : SchemaRegistry) :
    (unmet C (b.referring registry name)).card < (unmet C b).card := by
  apply Finset.card_lt_card
  rw [Finset.ssubset_iff_of_subset]
  · have hmem : name ∈ C.entries.map (·.definition.name) := by
      rw [Classes.isKnown, Classes.find?, List.find?_isSome] at hknown
      obtain ⟨entry, hentry, hname⟩ := hknown
      exact List.mem_map.mpr ⟨entry, hentry, by simpa using hname⟩
    refine ⟨name, ?_, ?_⟩
    · simpa [unmet, hnew] using hmem
    · simp [unmet, referring]
  · apply Finset.sdiff_subset_sdiff (Finset.Subset.refl _)
    intro other hother
    simp only [referring, List.mem_toFinset, List.mem_append] at hother ⊢
    exact Or.inl hother

/-- What making schemas may fail with, from one builder to another: a configuration error or a
constraint that could not be checked, a fault of writing a member of an enumeration whose reference
was given out in between, or a value in a default that is a record without one of its attributes or
a key of too many digits. -/
inductive Blamed (C : Classes) (b after : SchemaBuilder) : Failure → Prop
  | configuration (e : ConfigurationError) : Blamed C b after (.ofConfiguration e)
  | member {name : String} {e : Enumeration} {m : String × Value} {w : Value} {fault : Fault}
      (hnew : name ∉ b.referenced) (hmet : name ∈ after.referenced)
      (he : C.enumeration? name = some e) (hm : m ∈ e.members) (hw : w.Within m.2)
      (hfault : w.formless? = some fault ∨ w.Lacks C fault) : Blamed C b after (.fault fault)
  | default {className : String} {shape : Shape} {f : Field} {value w : Value} {fault : Fault}
      (hshape : C.shape className = .ok shape) (hf : f ∈ shape.fields)
      (hdefault : f.default = some value) (hw : w.Within value)
      (hfault : fault = .tooManyDigits ∧ w.formless? = some fault ∨ w.Lacks C fault) :
      Blamed C b after (.fault fault)

/-- What is to blame for a failure is to blame for it when more is looked at before. -/
theorem Blamed.of_subset {first : SchemaBuilder} {e : Failure} (h : Blamed C b after e)
    (hsub : first.referenced ⊆ b.referenced) : Blamed C first after e := by
  cases h with
  | configuration e => exact .configuration e
  | member hnew hmet he hm hw hfault =>
    exact .member (fun hmem => hnew (hsub hmem)) hmet he hm hw hfault
  | default hshape hf hdefault hw hfault => exact .default hshape hf hdefault hw hfault

/-- A step that takes back no reference, gives results with a property, and, begun with fewer
classes unmet than a bound, fails only as it may be blamed for. -/
structure FailsOnly {α : Type} (C : Classes) (depth : Nat) (m : BuildSchema α) (P : α → Prop) :
    Prop where
  grows : ∀ ⦃b after : SchemaBuilder⦄, Ends m b after → b.referenced ⊆ after.referenced
  result : ∀ ⦃b after : SchemaBuilder⦄ ⦃a : α⦄, m.run b = .ok a after → P a
  blamed : ∀ ⦃b after : SchemaBuilder⦄ ⦃e : Failure⦄, (unmet C b).card < depth →
    m.run b = .error e after → Blamed C b after e

/-- The reference that is given out is one more. -/
theorem subset_referring (b : SchemaBuilder) (registry : SchemaRegistry) (name : String) :
    b.referenced ⊆ (b.referring registry name).referenced :=
  List.subset_append_left _ _

/-- The reference to a class takes back no reference when its body takes back none. -/
theorem grows_named {name : String} {body : BuildSchema Schema}
    (hbody : ∀ ⦃b after⦄, Ends body b after → b.referenced ⊆ after.referenced) :
    ∀ ⦃b after⦄, Ends (named C name body) b after → b.referenced ⊆ after.referenced := by
  intro b after h
  have hkeeps : Keeps (fun later => b.referenced ⊆ later.referenced) (named C name body) := by
    refine keeps_named (fun before _ registry _ _ hsub => ?_)
      (fun _ _ hends hsub => List.Subset.trans hsub (hbody hends)) fun _ _ _ _ _ _ _ _ hsub => hsub
    exact List.Subset.trans hsub (subset_referring before registry name)
  exact hkeeps h (List.Subset.refl _)

/-- The reference to a class fails when it is new, and its name is refused, or it is free and the
body fails. -/
theorem run_named_eq_error_iff {name : String} {body : BuildSchema Schema} {e : Failure} :
    (named C name body).run b = .error e after ↔ name ∉ b.referenced ∧
      ((b = after ∧ ∃ c, b.registry.reserve (C.schemaNameOf name) name = .error c ∧
          e = .ofConfiguration c) ∨
        ∃ registry, b.registry.reserve (C.schemaNameOf name) name = .ok (true, registry) ∧
          body.run (b.referring registry name) = .error e after) := by
  rw [run_named]
  by_cases hnew : name ∈ b.referenced
  · rw [if_pos hnew]
    exact ⟨fun h => (nomatch h), fun h => absurd hnew h.1⟩
  rw [if_neg hnew]
  constructor
  · intro h
    refine ⟨hnew, ?_⟩
    split at h
    · rename_i c hreserve
      cases h
      exact Or.inl ⟨rfl, c, hreserve, rfl⟩
    · cases h
    · rename_i registry hreserve
      split at h
      · cases h
      · rename_i finish hmade
        cases h
        exact Or.inr ⟨registry, hreserve, hmade⟩
  · rintro ⟨_, ⟨rfl, c, hreserve, rfl⟩ | ⟨registry, hreserve, hmade⟩⟩
    · simp only [hreserve]
    · simp only [hreserve, hmade]

/-- Requiring results in a row is requiring what comes of them in a row. -/
theorem require_bind {α β : Type} (x : Except Failure α) (f : α → Except Failure β) :
    require (x >>= f) = require x >>= fun a => require (f a) := by
  cases x <;> rfl

/-- Requiring each of several results is requiring all of them. -/
theorem mapM_require {α β : Type} (f : α → Except Failure β) (xs : List α) :
    xs.mapM (fun x => require (f x)) = require (xs.mapM f) := by
  induction xs with
  | nil => rfl
  | cons x rest ih =>
    rw [List.mapM_cons, List.mapM_cons, require_bind, ih]
    simp only [require_bind]
    rfl

/-- A result that is required fails as it does itself, where it is. -/
theorem run_require_eq_error_iff {α : Type} {x : Except Failure α} {e : Failure} :
    (require x).run b = .error e after ↔ x = .error e ∧ b = after := by
  cases x with
  | ok a => exact ⟨fun h => (nomatch h), fun h => (nomatch h.1)⟩
  | error e' =>
    constructor
    · intro h
      cases h
      exact ⟨rfl, rfl⟩
    · rintro ⟨⟨⟩, rfl⟩
      rfl

/-- The body of an enumeration requires the values of its members, all of them, as JSON. -/
theorem enumerationBody_eq (C : Classes) (name : String) : enumerationBody C name =
    require ((((C.enumeration? name).map (·.members)).getD []).mapM fun m => Body.toJson C m.2) >>=
      fun values => pure { type := some (valuesType values), enumeration := some values } := by
  rw [← mapM_require]
  rfl

/-- The body of an enumeration fails as the first member does that is not written, and changes
nothing. -/
theorem run_enumerationBody_eq_error_iff {name : String} {e : Failure} :
    (enumerationBody C name).run b = .error e after ↔
      b = after ∧ ∃ enumeration front m behind, C.enumeration? name = some enumeration ∧
        enumeration.members = front ++ m :: behind ∧
        (∀ n ∈ front, ∃ j, Body.toJson C n.2 = .ok j) ∧ Body.toJson C m.2 = .error e := by
  rw [enumerationBody_eq, run_bind_eq_error_iff, run_require_eq_error_iff, mapM_eq_error_iff]
  constructor
  · rintro (⟨⟨front, m, behind, hmembers, hfront, hm⟩, rfl⟩ | ⟨_, _, _, h⟩)
    · cases he : C.enumeration? name with
      | none =>
        rw [he] at hmembers
        simp at hmembers
      | some enumeration =>
        rw [he] at hmembers
        exact ⟨rfl, enumeration, front, m, behind, rfl, hmembers, hfront, hm⟩
    · cases h
  · rintro ⟨rfl, enumeration, front, m, behind, he, hmembers, hfront, hm⟩
    rw [he]
    exact Or.inl ⟨⟨front, m, behind, hmembers, hfront, hm⟩, rfl⟩

/-- The body of an enumeration takes back no reference. -/
theorem grows_enumerationBody {name : String} ⦃b after : SchemaBuilder⦄
    (h : Ends (enumerationBody C name) b after) : b.referenced ⊆ after.referenced := by
  have hparts : Composable fun _ m => Keeps (fun later => b.referenced ⊆ later.referenced) m :=
    composable_keeps fun _ _ hsub => hsub
  exact hparts.enumerationBody C name h (List.Subset.refl _)

namespace FailsOnly

variable {α β : Type} {depth : Nat} {m : BuildSchema α} {k : α → BuildSchema β} {P : α → Prop}
  {Q : β → Prop}

/-- A result at once does not fail. -/
theorem pure {a : α} (ha : P a) : FailsOnly C depth (Pure.pure a) P := by
  refine ⟨?_, ?_, ?_⟩
  · rintro b after (⟨_, ⟨⟩⟩ | ⟨_, ⟨⟩⟩)
    exact List.Subset.refl _
  · intro b after a' hrun
    cases hrun
    exact ha
  · intro b after e _ hrun
    cases hrun

/-- A failure that may be blamed for, wherever fewer classes are unmet than the bound. -/
theorem throw {e : Failure} (h : ∀ b, (unmet C b).card < depth → Blamed C b b e) :
    FailsOnly C depth (MonadExcept.throw e) P := by
  refine ⟨?_, ?_, ?_⟩
  · rintro b after (⟨_, ⟨⟩⟩ | ⟨_, ⟨⟩⟩)
    exact List.Subset.refl _
  · intro b after a hrun
    cases hrun
  · intro b after e' hdepth hrun
    cases hrun
    exact h b hdepth

/-- A result that is required fails as it does itself. -/
theorem require {result : Except Failure α}
    (h : ∀ b e, result = .error e → Blamed C b b e) :
    FailsOnly C depth (require result) (result = .ok ·) := by
  cases result with
  | ok a => exact pure rfl
  | error e => exact throw fun b _ => h b e rfl

/-- What must be configured fails as describing classes does. -/
theorem configured (result : Except ConfigurationError α) :
    FailsOnly C depth (configured result) (result = .ok ·) := by
  have hrequired : FailsOnly C depth (SchemaBuilder.require (Body.configured result))
      (Body.configured result = .ok ·) := by
    refine require fun b e he => ?_
    obtain ⟨c, rfl⟩ := Body.exists_of_configured he
    exact .configuration c
  exact ⟨hrequired.grows, fun b after a hrun => mapError_eq_ok_iff.mp (hrequired.result hrun),
    hrequired.blamed⟩

/-- Noting what was looked up does not fail. -/
theorem ask (bases : List String) : FailsOnly C depth (ask bases) fun _ => True := by
  refine ⟨?_, fun _ _ _ _ => trivial, ?_⟩
  · rintro b after (⟨_, ⟨⟩⟩ | ⟨_, ⟨⟩⟩)
    exact List.Subset.refl _
  · intro b after e _ hrun
    cases hrun

/-- Two steps in a row fail as one of them does. -/
theorem bind (hm : FailsOnly C depth m P) (hk : ∀ a, P a → FailsOnly C depth (k a) Q) :
    FailsOnly C depth (m >>= k) Q := by
  refine ⟨?_, ?_, ?_⟩
  · intro b after h
    obtain ⟨e, hfirst⟩ | ⟨a, between, hfirst, hsecond⟩ := h.bind
    · exact hm.grows (Or.inr ⟨e, hfirst⟩)
    · have hsub := hm.grows (Or.inl ⟨a, hfirst⟩)
      exact List.Subset.trans hsub ((hk a (hm.result hfirst)).grows hsecond)
  · intro b after c hrun
    obtain ⟨a, between, hfirst, hsecond⟩ := run_bind_eq_ok_iff.mp hrun
    exact (hk a (hm.result hfirst)).result hsecond
  · intro b after e hdepth hrun
    obtain hfirst | ⟨a, between, hfirst, hsecond⟩ := run_bind_eq_error_iff.mp hrun
    · exact hm.blamed hdepth hfirst
    · have hsub := hm.grows (Or.inl ⟨a, hfirst⟩)
      have hbetween : (unmet C between).card < depth := by
        have hle := card_unmet_le (C := C) hsub
        omega
      exact ((hk a (hm.result hfirst)).blamed hbetween hsecond).of_subset hsub

/-- The reference to a class of the table fails as its body does, or because its name is taken. -/
theorem named {name : String} {body : BuildSchema Schema} (hknown : C.isKnown name = true)
    {R : Schema → Prop} (hbody : FailsOnly C depth body R) :
    FailsOnly C (depth + 1) (named C name body) fun _ => True := by
  refine ⟨grows_named hbody.grows, fun _ _ _ _ => trivial, ?_⟩
  intro b after e hdepth hrun
  obtain ⟨hnew, ⟨_, c, _, rfl⟩ | ⟨registry, _, hmade⟩⟩ := run_named_eq_error_iff.mp hrun
  · exact .configuration c
  · have hless : (unmet C (b.referring registry name)).card < depth := by
      have hlt := card_unmet_referring hknown hnew registry
      omega
    exact (hbody.blamed hless hmade).of_subset (subset_referring b registry name)

/-- The reference to an enumeration fails because its name is taken, or as the writing of a member
does. -/
theorem enumeration (name : String) :
    FailsOnly C depth (SchemaBuilder.named C name (enumerationBody C name)) fun _ => True := by
  refine ⟨grows_named grows_enumerationBody, fun _ _ _ _ => trivial, ?_⟩
  intro b after e _ hrun
  obtain ⟨hnew, ⟨_, c, _, rfl⟩ | ⟨registry, _, hmade⟩⟩ := run_named_eq_error_iff.mp hrun
  · exact .configuration c
  · obtain ⟨rfl, enumeration, front, m, behind, he, hmembers, _, hm⟩ :=
      run_enumerationBody_eq_error_iff.mp hmade
    have hmem : m ∈ enumeration.members := by simp [hmembers]
    have hmet : name ∈ (b.referring registry name).referenced := by simp [referring]
    rcases Body.blocks_of_toJson hm with ⟨c, rfl⟩ | ⟨w, fault, rfl, hw, hfault⟩
    · exact .configuration c
    · exact .member hnew hmet he hmem hw hfault

variable {leaf : Leaf → BuildSchema Schema}

/-- The schema of a type fails as the reference to the form at its heart does. -/
theorem typeSchema {type : TypeInfo} (hleaf : type.core.isNamed = true →
      FailsOnly C depth (leaf type.core) fun _ => True) :
    FailsOnly C depth (typeSchema leaf type) fun _ => True := by
  induction type with
  | leaf form nullable notes =>
    cases form with
    | scalar s => exact pure trivial
    | any => exact pure trivial
    | enumeration name | record name | polymorphic name =>
      exact (hleaf rfl).bind fun _ _ => pure trivial
  | array container item nullable notes ih => exact (ih hleaf).bind fun _ _ => pure trivial
  | map item nullable notes ih => exact (ih hleaf).bind fun _ _ => pure trivial

/-- The default of a field fails as describing classes does, or for a record that lacks an attribute
or a key of too many digits. -/
theorem defaultJson {className : String} {shape : Shape} {f : Field} {value : Value}
    (hshape : C.shape className = .ok shape) (hf : f ∈ shape.fields)
    (hdefault : f.default = some value) :
    FailsOnly C depth (SchemaBuilder.require (SchemaBuilder.defaultJson C f value))
      (SchemaBuilder.defaultJson C f value = .ok ·) := by
  refine require fun b e h => ?_
  unfold SchemaBuilder.defaultJson at h
  split at h
  · cases h
    exact .configuration (.unsupportedType _)
  · rename_i hother
    rcases Body.blocks_of_toJson h with ⟨c, rfl⟩ | ⟨w, fault, rfl, hw, hformless | hlacks⟩
    · exact .configuration c
    · rcases Value.exists_of_formless? hformless with ⟨type, rfl⟩ | hdigits
      · exact absurd h (hother type)
      · exact .default hshape hf hdefault hw (Or.inl ⟨hdigits, hformless⟩)
    · exact .default hshape hf hdefault hw (Or.inr hlacks)

/-- The schema of a declared field fails as that of its type does, or as its default. -/
theorem fieldSchema {className : String} {shape : Shape} {f : Field}
    (hshape : C.shape className = .ok shape) (hf : f ∈ shape.fields)
    (hleaf : f.type.core.isNamed = true → FailsOnly C depth (leaf f.type.core) fun _ => True) :
    FailsOnly C depth (fieldSchema C leaf f) fun _ => True := by
  refine (typeSchema hleaf).bind fun s _ => ?_
  cases hdefault : f.default with
  | none => exact pure trivial
  | some value =>
    refine (ask _).bind fun _ _ => ?_
    exact (defaultJson hshape hf hdefault).bind fun _ _ => pure trivial

/-- The schemas of declared fields fail as that of one of them does. -/
theorem fieldSchemas {className : String} {shape : Shape}
    (hshape : C.shape className = .ok shape)
    (hleaf : ∀ f ∈ shape.fields, f.type.core.isNamed = true →
      FailsOnly C depth (leaf f.type.core) fun _ => True)
    {fields : List Field} (hfields : fields ⊆ shape.fields) :
    FailsOnly C depth (fieldSchemas C leaf fields) fun _ => True := by
  induction fields with
  | nil => exact pure trivial
  | cons f rest ih =>
    obtain ⟨hf, hrest⟩ := List.cons_subset.mp hfields
    refine (fieldSchema hshape hf (hleaf f hf)).bind fun _ _ => ?_
    exact (ih hrest).bind fun _ _ => pure trivial

/-- The body of a record fails as one of its fields does, or for want of its declaration. -/
theorem recordBody {name : String}
    (hleaf : ∀ form ∈ C.below (.record name), form.isNamed = true →
      FailsOnly C depth (leaf form) fun _ => True) :
    FailsOnly C depth (recordBody C leaf name) fun _ => True := by
  refine (ask _).bind fun _ _ => (configured _).bind fun parent _ => ?_
  refine (configured _).bind fun shape hshape => ?_
  have hfields : ∀ f ∈ shape.fields, f.type.core.isNamed = true →
      FailsOnly C depth (leaf f.type.core) fun _ => True := by
    intro f hf
    apply hleaf
    rw [Classes.below, hshape]
    exact List.mem_map_of_mem hf
  refine (fieldSchemas hshape hfields (List.Subset.refl _)).bind fun _ _ => ?_
  cases parent with
  | none => exact pure trivial
  | some h => exact pure trivial

/-- The body of a base fails as one of its variants does. -/
theorem variantsBody {record : String → BuildSchema Schema} {h : Hierarchy}
    (hrecord : ∀ v ∈ h.variants, FailsOnly C depth (record v.2) fun _ => True) :
    FailsOnly C depth (variantsBody C record h) fun _ => True := by
  have hvariants (variants : List (String × String)) (hsub : variants ⊆ h.variants) :
      FailsOnly C depth (variantReferences record variants) fun _ => True := by
    induction variants with
    | nil => exact pure trivial
    | cons variant rest ih =>
      obtain ⟨hvariant, hrest⟩ := List.cons_subset.mp hsub
      exact (hrecord variant hvariant).bind fun _ _ => (ih hrest).bind fun _ _ => pure trivial
  exact (hvariants h.variants (List.Subset.refl _)).bind fun _ _ => pure trivial

/-- There are never too few classes unmet for a body that must not be nested. -/
theorem tooDeep : FailsOnly C 0 (MonadExcept.throw (.fault .tooDeep) : BuildSchema α) P :=
  throw fun _ hdepth => absurd hdepth (Nat.not_lt_zero _)

/-- The reference to a class of a live table, however deep bodies may be nested, fails only as it
may be blamed for, when fewer classes are unmet than that. -/
theorem leafSchema (hC : C.Live) (depth : Nat) {form : Leaf} (hnamed : form.isNamed = true)
    (hknown : C.isKnown form.label = true) :
    FailsOnly C depth (leafSchema C depth form) fun _ => True := by
  induction depth generalizing form with
  | zero =>
    cases form with
    | enumeration name => exact enumeration name
    | scalar s | any => cases hnamed
    | record name | polymorphic name => exact tooDeep
  | succ depth ih =>
    cases form with
    | scalar s | any => cases hnamed
    | enumeration name => exact enumeration name
    | record name =>
      refine named hknown (recordBody fun inside hinside hinside_named => ih hinside_named ?_)
      rcases C.isOwn_or_record_of_below hinside with hown | ⟨_, _, _, _, ⟨⟩, _⟩
      exact Classes.isKnown_of_leaf? (hown hinside_named)
    | polymorphic base =>
      refine (ask _).bind fun _ _ => (configured _).bind fun h hh => ?_
      refine named hknown (variantsBody fun v hv => ih rfl ?_)
      exact (hC.names_hierarchy hh v hv).1

/-- The schema of a hint fails only as it may be blamed for, whatever was met before. -/
theorem ofHint (hC : C.Live) (hint : Hint) :
    FailsOnly C (greatestDepth C) (ofHint C hint) fun _ => True := by
  refine (configured _).bind fun type htype => typeSchema fun hnamed => ?_
  have hresolved : C.resolve hint [] = .ok type := mapError_eq_ok_iff.mp htype
  have hown : type.core.IsOwn C := (C.resolveWithin_eq_ok hresolved).1
  exact leafSchema hC (greatestDepth C) hnamed (Classes.isKnown_of_leaf? (hown hnamed))

end FailsOnly

/-- How making schemas fails: whatever classes are described, whatever the hint and whatever was
made or failed before, a schema is made, or describing a class fails, or a value is to blame: one in
a member of an enumeration whose reference was given out just now, or one in a default. -/
theorem ok_or_blamed_ofHint (hC : C.Live) (hint : Hint) (b : SchemaBuilder) :
    (∃ s after, (ofHint C hint).run b = .ok s after) ∨
      ∃ e after, (ofHint C hint).run b = .error e after ∧ Blamed C b after e := by
  cases hrun : (ofHint C hint).run b with
  | ok s after => exact Or.inl ⟨s, after, rfl⟩
  | error e after =>
    exact Or.inr ⟨e, after, rfl, (FailsOnly.ofHint hC hint).blamed (card_unmet_lt C b) hrun⟩

end SchemaBuilder

end HttpContract
