import HttpContract.Proofs.Schema.Content
import HttpContract.Proofs.Schema.Steps

/-!
# Runs of the schema builder

A step of making schemas that ends well has walked along certain forms: the registry holds one
finished entry more for each class met on the way, in the order of meeting, and the schema that is
given is the one its type has. Names whose bodies are still under way lie in front of these entries
and are not touched, however deep the bodies are nested.
-/

namespace HttpContract

/-- The entry of a class whose body is made. -/
def Classes.finishedEntry (C : Classes) (form : Leaf) : SchemaEntry :=
  { name := C.schemaNameOf form.label, owner := form.label, schema := (C.bodyOf form).toOption }

namespace SchemaBuilder

/-- One builder is another one with finished entries for the given forms behind its own. -/
structure Grows (C : Classes) (b : SchemaBuilder) (new : List Leaf) (after : SchemaBuilder) :
    Prop where
  entries : after.registry.entries = b.registry.entries ++ new.map C.finishedEntry
  referenced : after.referenced = b.referenced ++ new.map Leaf.label
  finished : ∀ form ∈ new, ∃ s, C.bodyOf form = .ok s

/-- A step walks along forms and gives a result with a property, whenever it ends well. -/
def Makes {α : Type} (C : Classes) (step : BuildSchema α) (forms : List Leaf)
    (result : α → Prop) : Prop :=
  ∀ ⦃b after : SchemaBuilder⦄ ⦃a : α⦄, b.Sound → step.run b = .ok a after →
    result a ∧ after.Sound ∧ ∃ new, C.Meets b.referenced forms new ∧ Grows C b new after

variable {α β : Type} {C : Classes} {b after : SchemaBuilder} {new : List Leaf}

/-- Growing twice is growing once by both. -/
theorem Grows.trans {later : List Leaf} {last : SchemaBuilder} (h : Grows C b new after)
    (hlater : Grows C after later last) : Grows C b (new ++ later) last := by
  refine ⟨?_, ?_, ?_⟩
  · rw [hlater.entries, h.entries, List.append_assoc, ← List.map_append]
  · rw [hlater.referenced, h.referenced, List.append_assoc, ← List.map_append]
  · intro form hform
    rcases List.mem_append.mp hform with hform | hform
    · exact h.finished form hform
    · exact hlater.finished form hform

/-- A builder with the same registry and references has not grown. -/
theorem Grows.ofSame (hregistry : after.registry = b.registry)
    (hreferenced : after.referenced = b.referenced) : Grows C b [] after := by
  refine ⟨?_, ?_, ?_⟩
  · simp [hregistry]
  · simp [hreferenced]
  · simp

/-- A builder that has grown from a sound one still gives out references with entries only. -/
theorem Grows.owners (h : Grows C b new after) (hsound : b.Sound) :
    after.registry.entries.map (·.owner) = after.referenced := by
  rw [h.entries, h.referenced, List.map_append, hsound.owners, List.map_map]
  rfl

namespace Makes

variable {m : BuildSchema α} {k : α → BuildSchema β} {forms : List Leaf}
  {P : α → Prop} {Q : β → Prop}

/-- A step that gives a result at once walks along nothing. -/
theorem pure {a : α} (ha : P a) : Makes C (Pure.pure a) [] P := by
  intro b after a' hsound hrun
  obtain ⟨rfl, rfl⟩ := run_pure_eq_ok_iff.mp hrun
  exact ⟨ha, hsound, [], .nil, .ofSame rfl rfl⟩

/-- A form that is no class may be walked along for nothing. -/
theorem plain {form : Leaf} (hform : form.isNamed = false) {a : α} (ha : P a) :
    Makes C (Pure.pure a) [form] P := by
  intro b after a' hsound hrun
  obtain ⟨hresult, hafter, new, hmeets, hgrows⟩ := pure (C := C) ha hsound hrun
  exact ⟨hresult, hafter, new, .plain hform hmeets, hgrows⟩

/-- A result that is required walks along nothing. -/
theorem require (result : Except Failure α) : Makes C (require result) [] (result = .ok ·) := by
  cases result with
  | ok a => exact .pure rfl
  | error e =>
    intro b after a' _ hrun
    cases hrun

/-- A result that configuration must give walks along nothing. -/
theorem configured (result : Except ConfigurationError α) :
    Makes C (configured result) [] (result = .ok ·) := by
  intro b after a hsound hrun
  obtain ⟨ha, hrest⟩ := require (C := C) (Body.configured result) hsound hrun
  exact ⟨mapError_eq_ok_iff.mp ha, hrest⟩

/-- Noting what was looked up walks along nothing. -/
theorem ask (bases : List String) : Makes C (ask bases) [] fun _ => True := by
  intro b after a hsound hrun
  cases hrun
  exact ⟨trivial, ⟨hsound.owners, hsound.names⟩, [], .nil, .ofSame rfl rfl⟩

/-- A step that only fails walks along whatever is asked. -/
theorem throw (e : Failure) : Makes C (throw e : BuildSchema α) forms P := by
  intro b after a _ hrun
  cases hrun

/-- Two steps in a row walk along the forms of the first and then along those of the second. -/
theorem bind (more : List Leaf) (h : Makes C m forms P) (hk : ∀ a, P a → Makes C (k a) more Q) :
    Makes C (m >>= k) (forms ++ more) Q := by
  intro b after c hsound hrun
  obtain ⟨a, between, hfirst, hsecond⟩ := run_bind_eq_ok_iff.mp hrun
  obtain ⟨ha, hbetween, new, hmeets, hgrows⟩ := h hsound hfirst
  obtain ⟨hc, hafter, later, hmore, hlater⟩ := hk a ha hbetween hsecond
  rw [hgrows.referenced] at hmore
  exact ⟨hc, hafter, new ++ later, hmeets.append hmore, hgrows.trans hlater⟩

/-- What follows from the property of a result holds of it too. -/
theorem imp {Q : α → Prop} (h : Makes C m forms P) (hPQ : ∀ a, P a → Q a) : Makes C m forms Q := by
  intro b after a hsound hrun
  obtain ⟨ha, hrest⟩ := h hsound hrun
  exact ⟨hPQ a ha, hrest⟩

/-- A step followed by one that walks along nothing. -/
theorem bindLast (h : Makes C m forms P) (hk : ∀ a, P a → Makes C (k a) [] Q) :
    Makes C (m >>= k) forms Q := by
  have := h.bind [] hk
  rwa [List.append_nil] at this

/-- The reference to a class walks along its form, when the body of the class walks along the forms
below and gives the schema that the form has. -/
theorem named {body : BuildSchema Schema} (form : Leaf) (hform : form.isNamed = true)
    (hbody : Makes C body (C.below form) (C.bodyOf form = .ok ·)) :
    Makes C (named C form.label body) [form] (· = .ofReference (C.schemaNameOf form.label)) := by
  intro b after a hsound hrun
  rw [run_named] at hrun
  split at hrun
  · rename_i hknown
    cases hrun
    exact ⟨rfl, hsound, [], .ofKnown hform hknown, .ofSame rfl rfl⟩
  · rename_i hnew
    split at hrun
    · cases hrun
    · rename_i registry hreserve
      cases (hsound.refer hnew hreserve).2.1
    · rename_i registry hreserve
      obtain ⟨hstart, _, _, hentries⟩ := hsound.refer hnew hreserve
      split at hrun
      · rename_i s finish hmade
        cases hrun
        -- The body starts with the entry of its own class reserved, and leaves it where it is.
        obtain ⟨hs, hfinish, inner, hmeets, hgrows⟩ := hbody hstart hmade
        have hfront : finish.registry.entries = b.registry.entries ++
            { name := C.schemaNameOf form.label, owner := form.label } ::
              inner.map C.finishedEntry := by
          rw [hgrows.entries, referring, hentries, List.append_assoc]
          rfl
        have hwhole : Grows C b (form :: inner)
            (finish.completing (C.schemaNameOf form.label) s) := by
          constructor
          · rw [completing, SchemaRegistry.entries_complete hfront hfinish.names, List.map_cons,
              Classes.finishedEntry, hs]
            rfl
          · rw [completing, hgrows.referenced, referring, List.append_assoc]
            rfl
          · intro f hf
            rcases List.mem_cons.mp hf with rfl | hf
            · exact ⟨s, hs⟩
            · exact hgrows.finished f hf
        refine ⟨rfl, ⟨hwhole.owners hsound, ?_⟩, form :: inner, .ofEntered hform hnew hmeets,
          hwhole⟩
        rw [completing, SchemaRegistry.names_complete]
        exact hfinish.names
      · cases hrun

/-- The values of an enumeration's members are written one after the other. -/
theorem memberValues (members : List (String × Value)) :
    Makes C (members.mapM fun (_, value) => SchemaBuilder.require (Body.toJson C value)) []
      (C.listedValues members = .ok ·) := by
  induction members with
  | nil =>
    rw [List.mapM_nil]
    exact .pure rfl
  | cons member rest ih =>
    rw [List.mapM_cons]
    refine (require _).bindLast fun j hj => ih.bindLast fun values hvalues => .pure ?_
    rw [Classes.listedValues, hj, hvalues]
    rfl

/-- The body of an enumeration leads nowhere. -/
theorem enumerationBody (name : String) :
    Makes C (enumerationBody C name) (C.below (.enumeration name))
      (C.bodyOf (.enumeration name) = .ok ·) := by
  refine (memberValues _).bindLast fun values hvalues => .pure ?_
  rw [Classes.bodyOf, hvalues]
  rfl

variable {leaf : Leaf → BuildSchema Schema}

/-- The schema of a type walks along the form at its heart. -/
theorem typeSchema (hleaf : ∀ form, Makes C (leaf form) [form] (· = C.plainSchema form))
    (type : TypeInfo) : Makes C (typeSchema leaf type) [type.core] (· = C.schemaOf type) := by
  induction type with
  | leaf form nullable notes =>
    cases form with
    | scalar s => exact .plain rfl rfl
    | any => exact .plain rfl rfl
    | enumeration name | record name | polymorphic name =>
      refine (hleaf _).bindLast fun s hs => .pure ?_
      rw [hs]
      rfl
  | array container item nullable notes ih =>
    refine ih.bindLast fun s hs => .pure ?_
    rw [hs]
    rfl
  | map item nullable notes ih =>
    refine ih.bindLast fun s hs => .pure ?_
    rw [hs]
    rfl

/-- The schema of a field walks along the form at the heart of its type. -/
theorem fieldSchema (hleaf : ∀ form, Makes C (leaf form) [form] (· = C.plainSchema form))
    (f : Field) : Makes C (fieldSchema C leaf f) [f.type.core] (C.propertyOf f = .ok ·) := by
  refine (typeSchema hleaf f.type).bindLast fun s hs => ?_
  cases hdefault : f.default with
  | none =>
    refine .pure ?_
    rw [Classes.propertyOf, hdefault, hs]
  | some value =>
    refine (ask _).bindLast fun _ _ => (require _).bindLast fun default hjson => .pure ?_
    rw [Classes.propertyOf, hdefault, hs]
    exact bind_eq_ok_iff.mpr ⟨default, hjson, rfl⟩

/-- The schemas of fields walk along the forms at the hearts of their types. -/
theorem fieldSchemas (hleaf : ∀ form, Makes C (leaf form) [form] (· = C.plainSchema form))
    (fields : List Field) :
    Makes C (fieldSchemas C leaf fields) (fields.map (·.type.core))
      (C.propertiesOf fields = .ok ·) := by
  induction fields with
  | nil => exact .pure rfl
  | cons f rest ih =>
    refine (fieldSchema hleaf f).bind (rest.map (·.type.core)) fun s hs =>
      ih.bindLast fun others hothers => .pure ?_
    rw [Classes.propertiesOf, hs, hothers]
    rfl

/-- The body of a record walks along the forms of its fields. -/
theorem recordBody (hleaf : ∀ form, Makes C (leaf form) [form] (· = C.plainSchema form))
    (name : String) :
    Makes C (recordBody C leaf name) (C.below (.record name))
      (C.bodyOf (.record name) = .ok ·) := by
  refine (ask _).bind (C.below (.record name)) fun _ _ => ?_
  refine (configured _).bind (C.below (.record name)) fun parent hparent => ?_
  refine (configured _).bind (C.below (.record name)) fun shape hshape => ?_
  rw [Classes.below, hshape]
  refine (fieldSchemas hleaf shape.fields).bindLast fun fields hfields => ?_
  rw [Classes.bodyOf, hparent, hshape]
  cases parent with
  | none =>
    refine .pure ?_
    exact bind_eq_ok_iff.mpr ⟨none, rfl, bind_eq_ok_iff.mpr
      ⟨shape, rfl, bind_eq_ok_iff.mpr ⟨fields, hfields, rfl⟩⟩⟩
  | some h =>
    refine .pure ?_
    exact bind_eq_ok_iff.mpr ⟨some h, rfl, bind_eq_ok_iff.mpr
      ⟨shape, rfl, bind_eq_ok_iff.mpr ⟨fields, hfields, rfl⟩⟩⟩

/-- The references to variants walk along the variants. -/
theorem variantReferences {record : String → BuildSchema Schema}
    (hrecord : ∀ name, Makes C (record name) [.record name] (· = C.plainSchema (.record name)))
    (variants : List (String × String)) :
    Makes C (variantReferences record variants)
      (variants.map fun (_, className) => .record className)
      (· = variants.map fun (_, className) => C.plainSchema (.record className)) := by
  induction variants with
  | nil => exact .pure rfl
  | cons variant rest ih =>
    refine (hrecord variant.2).bind (rest.map fun (_, className) => .record className)
      fun s hs =>
        ih.bindLast fun others hothers => .pure ?_
    rw [hs, hothers]
    rfl

/-- The body of a base walks along its variants. -/
theorem variantsBody {record : String → BuildSchema Schema} {base : String} {h : Hierarchy}
    (hrecord : ∀ name, Makes C (record name) [.record name] (· = C.plainSchema (.record name)))
    (hbase : C.hierarchy base = .ok h) :
    Makes C (variantsBody C record h) (C.below (.polymorphic base))
      (C.bodyOf (.polymorphic base) = .ok ·) := by
  rw [Classes.below, hbase]
  refine (variantReferences hrecord h.variants).bindLast fun oneOf honeOf => .pure ?_
  rw [Classes.bodyOf, hbase, honeOf]
  rfl

/-- The reference to a form walks along this form, however deep bodies may be nested. -/
theorem leafSchema (depth : Nat) (form : Leaf) :
    Makes C (leafSchema C depth form) [form] (· = C.plainSchema form) := by
  induction depth generalizing form with
  | zero =>
    cases form with
    | enumeration name => exact named (.enumeration name) rfl (enumerationBody name)
    | scalar s | any | record name | polymorphic name => exact .throw _
  | succ depth ih =>
    cases form with
    | scalar s => exact .plain rfl rfl
    | any => exact .plain rfl rfl
    | enumeration name => exact named (.enumeration name) rfl (enumerationBody name)
    | record name => exact named (.record name) rfl (recordBody ih name)
    | polymorphic base =>
      refine (ask _).bind ([.polymorphic base]) fun _ _ => ?_
      refine (configured _).bind ([.polymorphic base]) fun h hbase => ?_
      exact named (.polymorphic base) rfl (variantsBody (fun name => ih (.record name)) hbase)

/-- The schema of a hint that resolves is that of its type. -/
theorem ofHint (hint : Hint) :
    Makes C (ofHint C hint) ((C.resolve hint []).toOption.map TypeInfo.core).toList
      fun s => ∃ type, C.resolve hint [] = .ok type ∧ s = C.schemaOf type := by
  refine (configured _).bind _ fun type htype => ?_
  have htype : C.resolve hint [] = .ok type := mapError_eq_ok_iff.mp htype
  rw [htype]
  refine (typeSchema (leafSchema (greatestDepth C)) type).imp ?_
  rintro s rfl
  exact ⟨type, rfl, rfl⟩

/-- The schema of a field is the one that its type and default have. -/
theorem ofField (f : Field) :
    Makes C (ofField C f) [f.type.core] (C.propertyOf f = .ok ·) :=
  fieldSchema (leafSchema (greatestDepth C)) f

end Makes

end SchemaBuilder

end HttpContract
