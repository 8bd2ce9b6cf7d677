import HttpContract.Proofs.Schema.Steps

/-!
# Builders with hidden names

A builder may hold names that another one does not, being the same otherwise. As long as the other
one does not come to reserve such a name itself, every step comes to the same from both.
-/

namespace HttpContract

namespace SchemaRegistry

variable {names : List String} {r other : SchemaRegistry} {name : String}

/-- A name that is not hidden is looked up in what is not hidden. -/
theorem find?_of_filter (hentries : other.entries.filter (·.name ∉ names) = r.entries)
    (hname : name ∉ names) : other.find? name = r.find? name := by
  rw [find?, find?, ← hentries, List.find?_filter]
  congr 1
  funext entry
  by_cases h : entry.name = name
  · simp [h, hname]
  · simp [h]

/-- Completing a name fills in the same entries, hidden or not. -/
theorem filter_complete (hentries : other.entries.filter (·.name ∉ names) = r.entries)
    (name : String) (schema : Schema) :
    (other.complete name schema).entries.filter (·.name ∉ names) =
      (r.complete name schema).entries := by
  simp only [complete, List.filter_map, ← hentries]
  congr 1
  refine List.filter_congr fun entry _ => ?_
  rw [Function.comp_apply]
  split <;> rfl

/-- The finished schemas of the names that are not hidden are those of their entries. -/
theorem filter_schemas (names : List String) (r : SchemaRegistry) :
    r.schemas.filter (·.1 ∉ names) =
      ({ r with entries := r.entries.filter (·.name ∉ names) } : SchemaRegistry).schemas := by
  rw [schemas, schemas, List.filter_filterMap, List.filterMap_filter]
  congr 1
  funext entry
  cases entry.schema with
  | none => simp
  | some s => by_cases h : entry.name ∈ names <;> simp [Option.filter, h]

/-- While schemas are collected, a name that no entry has is there to be claimed. -/
theorem reserve_of_notMem (hfrozen : r.frozen = false) (hname : name ∉ r.entries.map (·.name))
    (owner : String) :
    ∃ after, r.reserve name owner = .ok (true, after) ∧ name ∈ after.entries.map (·.name) := by
  have hfind : r.find? name = none := by
    rw [← contains_iff, contains] at hname
    simpa using hname
  refine ⟨{ r with entries := r.entries ++ [{ name, owner }] }, ?_, by simp⟩
  rw [reserve, hfind, hfrozen, if_neg Bool.false_ne_true]

/-- Reserving a name that is not hidden comes to the same. -/
theorem reserve_of_filter (hentries : other.entries.filter (·.name ∉ names) = r.entries)
    (hfrozen : other.frozen = r.frozen) (hname : name ∉ names) (owner : String) :
    (∃ e, r.reserve name owner = .error e ∧ other.reserve name owner = .error e) ∨
      ∃ isNew after after', r.reserve name owner = .ok (isNew, after) ∧
        other.reserve name owner = .ok (isNew, after') ∧ after.frozen = r.frozen ∧
        after'.frozen = r.frozen ∧ after'.entries.filter (·.name ∉ names) = after.entries := by
  unfold reserve
  rw [hfrozen, find?_of_filter hentries hname]
  split
  · exact Or.inl ⟨_, rfl, rfl⟩
  · split
    · refine Or.inr ⟨true, _, _, rfl, rfl, rfl, rfl, ?_⟩
      rw [List.filter_append, hentries]
      simp [hname]
    · split
      · exact Or.inr ⟨false, _, _, rfl, rfl, rfl, hfrozen, hentries⟩
      · exact Or.inl ⟨_, rfl, rfl⟩

end SchemaRegistry

namespace SchemaBuilder

/-- Whether a builder has reserved one of several names. -/
def Touches (names : List String) (b : SchemaBuilder) : Prop :=
  ∃ name ∈ b.registry.entries.map (·.name), name ∈ names

/-- Whether a builder is another one that holds further names, of those that are hidden. -/
structure Hides (C : Classes) (names : List String) (b other : SchemaBuilder) : Prop where
  entries : other.registry.entries.filter (·.name ∉ names) = b.registry.entries
  kept : ∀ className ∈ b.referenced, className ∈ other.referenced
  referenced : ∀ className ∈ other.referenced,
    className ∈ b.referenced ∨ C.schemaNameOf className ∈ names
  collecting : b.registry.frozen = false
  otherCollecting : other.registry.frozen = false

variable {C : Classes} {names : List String} {b other : SchemaBuilder} {α : Type}

/-- Completing a name reserves none. -/
theorem touches_completing_iff {name : String} {schema : Schema} :
    Touches names (b.completing name schema) ↔ Touches names b := by
  rw [Touches, completing, SchemaRegistry.names_complete, Touches]

/-- Names that were reserved stay so. -/
theorem invariant_touches (C : Classes) (names : List String) : Invariant C (Touches names) := by
  refine ⟨fun _ _ h => h, ?_, fun _ _ _ _ _ _ _ _ h => touches_completing_iff.mpr h⟩
  rintro b className isNew registry _ hreserve ⟨name, hmem, hname⟩
  refine ⟨name, ?_, hname⟩
  rw [referring]
  rcases (SchemaRegistry.reserve_eq_ok hreserve).2 with ⟨_, _, hentries⟩ | ⟨_, _, hentries⟩
  · rw [hentries, List.map_append]
    exact List.mem_append_left _ hmem
  · rw [hentries]
    exact hmem

/-- The finished schemas are the same but for those of hidden names. -/
theorem Hides.schemas (h : Hides C names b other) :
    b.registry.schemas.filter (·.1 ∉ names) = other.registry.schemas.filter (·.1 ∉ names) := by
  rw [SchemaRegistry.filter_schemas, SchemaRegistry.filter_schemas, ← h.entries, List.filter_filter]
  simp only [Bool.and_self, SchemaRegistry.schemas]

/-- A class that neither builder's hidden names belong to is known to both or to none. -/
theorem Hides.referenced_iff (h : Hides C names b other) {className : String}
    (hname : C.schemaNameOf className ∉ names) :
    className ∈ other.referenced ↔ className ∈ b.referenced :=
  ⟨fun hmem => (h.referenced className hmem).resolve_right hname, h.kept className⟩

/-- Both builders still differ in hidden names only when they give out the reference to a class. -/
theorem Hides.refer (h : Hides C names b other) (className : String)
    {registry registry' : SchemaRegistry} (hfrozen : registry.frozen = false)
    (hfrozen' : registry'.frozen = false)
    (hentries : registry'.entries.filter (·.name ∉ names) = registry.entries) :
    Hides C names (b.referring registry className) (other.referring registry' className) := by
  refine ⟨hentries, fun c hc => ?_, fun c hc => ?_, hfrozen, hfrozen'⟩
  · rcases List.mem_append.mp hc with hc | hc
    · exact List.mem_append_left _ (h.kept c hc)
    · exact List.mem_append_right _ hc
  · rcases List.mem_append.mp hc with hc | hc
    · exact (h.referenced c hc).imp_left (List.mem_append_left _)
    · exact Or.inl (List.mem_append_right _ hc)

/-- Both builders still differ in hidden names only when they complete a name. -/
theorem Hides.complete (h : Hides C names b other) (name : String) (schema : Schema) :
    Hides C names (b.completing name schema) (other.completing name schema) :=
  ⟨SchemaRegistry.filter_complete h.entries name schema, h.kept, h.referenced, h.collecting,
    h.otherCollecting⟩

/-- A builder that gives out the reference to a class with a hidden name reserves this name. -/
theorem Hides.touches (h : Hides C names b other) {body : BuildSchema Schema} {className : String}
    {b' : SchemaBuilder} (hnew : className ∉ b.referenced)
    (hname : C.schemaNameOf className ∈ names) (hbody : Keeps (Touches names) body)
    (hends : Ends (named C className body) b b') : Touches names b' := by
  have hfree : C.schemaNameOf className ∉ b.registry.entries.map (·.name) := by
    intro hmem
    obtain ⟨entry, hentry, hsame⟩ := List.mem_map.mp hmem
    rw [← h.entries] at hentry
    have hshown : entry.name ∉ names := by simpa using (List.mem_filter.mp hentry).2
    exact hshown (hsame ▸ hname)
  obtain ⟨registry, hreserve, hmem⟩ :=
    SchemaRegistry.reserve_of_notMem h.collecting hfree className
  have hstart : Touches names (b.referring registry className) := ⟨_, hmem, hname⟩
  rw [Ends, run_named, if_neg hnew, hreserve] at hends
  dsimp only at hends
  split at hends
  · rename_i s finish hrun
    rcases hends with ⟨_, ⟨⟩⟩ | ⟨_, ⟨⟩⟩
    exact touches_completing_iff.mpr (hbody (Or.inl ⟨s, hrun⟩) hstart)
  · rename_i e finish hrun
    rcases hends with ⟨_, ⟨⟩⟩ | ⟨_, ⟨⟩⟩
    exact hbody (Or.inr ⟨e, hrun⟩) hstart

/-- The reference to a class comes to the same when its body does. -/
theorem follows_named {body : BuildSchema Schema} (className : String)
    (hbody : Follows (Hides C names) (Touches names) body)
    (hstays : Keeps (Touches names) (SchemaBuilder.named C className body)) :
    Follows (Hides C names) (Touches names) (SchemaBuilder.named C className body) := by
  refine ⟨hstays, fun {b other b'} h hends hfree => ?_⟩
  by_cases hknown : className ∈ b.referenced
  · rw [run_named, run_named, if_pos hknown, if_pos (h.kept _ hknown)]
    exact .ok _ h
  · -- A hidden name would be reserved right here, and stay so to the end of the run.
    have hname : C.schemaNameOf className ∉ names := fun hname =>
      hfree (h.touches hknown hname hbody.stays hends)
    rw [Ends, run_named, if_neg hknown] at hends
    rw [run_named, run_named, if_neg hknown, if_neg (mt (h.referenced_iff hname).mp hknown)]
    rcases SchemaRegistry.reserve_of_filter h.entries
        (h.otherCollecting.trans h.collecting.symm) hname className with
      ⟨e, he, he'⟩ | ⟨isNew, registry, registry', hr, hr', hfrozen, hfrozen', hentries⟩
    · rw [he, he']
      exact .error _ h
    · rw [hr] at hends
      rw [hr, hr']
      have hstart := h.refer className (hfrozen.trans h.collecting) (hfrozen'.trans h.collecting)
        hentries
      cases isNew with
      | false => exact .ok _ hstart
      | true =>
        dsimp only at hends ⊢
        cases hrun : body.run (b.referring registry className) with
        | ok s finish =>
          rw [hrun] at hends
          rcases hends with ⟨_, ⟨⟩⟩ | ⟨_, ⟨⟩⟩
          obtain ⟨finish', hrun', hfinish⟩ :=
            hbody.ok hstart hrun (mt touches_completing_iff.mpr hfree)
          rw [hrun']
          exact .ok _ (hfinish.complete _ s)
        | error e finish =>
          rw [hrun] at hends
          rcases hends with ⟨_, ⟨⟩⟩ | ⟨_, ⟨⟩⟩
          obtain ⟨finish', hrun', hfinish⟩ := hbody.error hstart hrun hfree
          rw [hrun']
          exact .error e hfinish

/-- Every step comes to the same from builders that differ in hidden names, unless it reserves one
of these itself. -/
theorem Step.follows (names : List String) {m : BuildSchema α} (h : Step C m) :
    Follows (Hides C names) (Touches names) m := by
  have hstays {β : Type} {m : BuildSchema β} (h : Step C m) : Keeps (Touches names) m :=
    h.keeps (invariant_touches C names)
  induction h with
  | pure a => exact .pure a
  | require result =>
    cases result with
    | ok a => exact .pure a
    | error e => exact ⟨hstays (.require _), fun h _ _ => .error e h⟩
  | ask bases =>
    refine ⟨hstays (.ask bases), fun h _ _ => .ok () ?_⟩
    exact ⟨h.entries, h.kept, h.referenced, h.collecting, h.otherCollecting⟩
  | bind _ _ ihm ihk => exact ihm.bind ihk
  | @named className body hbody ih =>
    exact follows_named className ih (hstays (.named className hbody))

/-- What holds of a builder while schemas are collected, besides being sound: every entry has the
name of the class that owns it. -/
structure Collects (C : Classes) (b : SchemaBuilder) : Prop where
  collecting : b.registry.frozen = false
  named : ∀ entry ∈ b.registry.entries, entry.name = C.schemaNameOf entry.owner

/-- Builders that collect schemas go on to do so. -/
theorem invariant_collects (C : Classes) : Invariant C (Collects C) := by
  refine ⟨fun _ _ h => ⟨h.collecting, h.named⟩, ?_, ?_⟩
  · rintro b className isNew registry _ hreserve h
    obtain ⟨hfrozen, hentries⟩ := SchemaRegistry.reserve_eq_ok hreserve
    refine ⟨hfrozen.trans h.collecting, fun entry hentry => ?_⟩
    rw [referring] at hentry
    rcases hentries with ⟨_, _, hentries⟩ | ⟨_, _, hentries⟩
    · rw [hentries] at hentry
      rcases List.mem_append.mp hentry with hentry | hentry
      · exact h.named entry hentry
      · rw [List.mem_singleton.mp hentry]
    · rw [hentries] at hentry
      exact h.named entry hentry
  · rintro b later className registry s _ _ _ h
    refine ⟨h.collecting, fun entry hentry => ?_⟩
    obtain ⟨before, hbefore, rfl⟩ := List.mem_map.mp hentry
    split
    · exact h.named before hbefore
    · exact h.named before hbefore

/-- The names that a builder has reserved and another one has not. -/
def added (b after : SchemaBuilder) : List String :=
  (after.registry.entries.map (·.name)).filter (· ∉ b.registry.entries.map (·.name))

/-- A builder with entries added behind those of another one is that one but for the names that were
added. -/
theorem hides_added {after : SchemaBuilder} (hsound : b.Sound) (hb : Collects C b)
    (hafter : after.Sound) (hcollects : Collects C after)
    (hentries : b.registry.entries <+: after.registry.entries) :
    Hides C (added b after) b after := by
  obtain ⟨behind, hbehind⟩ := hentries
  have hadded (entry : SchemaEntry) (hentry : entry ∈ behind) : entry.name ∈ added b after := by
    have hnames := hafter.names
    rw [← hbehind, List.map_append, List.nodup_append] at hnames
    refine List.mem_filter.mpr ⟨?_, ?_⟩
    · rw [← hbehind, List.map_append]
      exact List.mem_append_right _ (List.mem_map_of_mem hentry)
    · refine decide_eq_true fun hmem => ?_
      exact hnames.2.2 _ hmem _ (List.mem_map_of_mem hentry) rfl
  have howned (className : String) : className ∈ after.referenced ↔
      className ∈ b.referenced ∨ ∃ entry ∈ behind, entry.owner = className := by
    rw [← hafter.owners, ← hsound.owners, ← hbehind, List.map_append, List.mem_append]
    exact or_congr_right List.mem_map
  constructor
  · rw [← hbehind, List.filter_append, List.filter_eq_self.mpr, List.filter_eq_nil_iff.mpr,
      List.append_nil]
    · exact fun entry hentry => by simpa using hadded entry hentry
    · intro entry hentry
      refine decide_eq_true fun hmem => ?_
      exact of_decide_eq_true (List.mem_filter.mp hmem).2 (List.mem_map_of_mem hentry)
  · exact fun className hmem => (howned className).mpr (Or.inl hmem)
  · intro className hmem
    refine ((howned className).mp hmem).imp_right ?_
    rintro ⟨entry, hentry, rfl⟩
    rw [← hcollects.named entry (hbehind ▸ List.mem_append_right _ hentry)]
    exact hadded entry hentry
  · exact hb.collecting
  · exact hcollects.collecting

end SchemaBuilder

end HttpContract
