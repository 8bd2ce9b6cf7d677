import HttpContract.Proofs.Binding
import HttpContract.Proofs.Records
import HttpContract.Schema.Parameter

/-!
# Which parameters are told apart

A shape has distinct names for its fields. A header is read under its name in lower case, everything
else under its name as it is, so two fields are documented and read as one parameter only if both
are headers whose names differ in case.
-/

namespace HttpContract

namespace Parameter

variable {C : Classes} {builder after : SchemaBuilder}

/-- Whether a parameter object stands for a bound field: under its key, at its location, and
required when the field is. -/
structure ReadsOff (p : Parameter) (bound : BoundField ParameterParser) : Prop where
  name_eq : p.name = bound.key
  location_eq : p.location = bound.location
  required_eq : p.required = bound.field.required

/-- A parameter object stands for its field. -/
theorem readsOff_ofBound {bound : BoundField ParameterParser} {p : Parameter}
    (h : (ofBound C bound).run builder = .ok p after) : p.ReadsOff bound := by
  have hmade {describe : Schema → Parameter} {between : SchemaBuilder}
      (hreads : ∀ s, (describe s).ReadsOff bound)
      (h : (SchemaBuilder.ofField C bound.field >>= fun s => pure (describe s)).run between =
        .ok p after) : p.ReadsOff bound := by
    obtain ⟨s, _, _, h⟩ := run_bind_eq_ok_iff.mp h
    obtain ⟨rfl, _⟩ := run_pure_eq_ok_iff.mp h
    exact hreads s
  unfold ofBound at h
  dsimp only at h
  split at h
  · obtain ⟨documented, _, _, h⟩ := run_bind_eq_ok_iff.mp h
    exact hmade (fun _ => ⟨rfl, rfl, rfl⟩) h
  · obtain ⟨_, _, _, h⟩ := run_bind_eq_ok_iff.mp h
    obtain ⟨_, _, _, h⟩ := run_bind_eq_ok_iff.mp h
    exact hmade (fun _ => ⟨rfl, rfl, rfl⟩) h

/-- Parameter objects stand for their fields, in order. -/
theorem readsOff_ofEach {bounds : List (BoundField ParameterParser)} {params : List Parameter}
    (h : (ofEach C bounds).run builder = .ok params after) :
    List.Forall₂ ReadsOff params bounds := by
  induction bounds generalizing builder after params with
  | nil =>
    obtain ⟨rfl, _⟩ := run_pure_eq_ok_iff.mp h
    exact .nil
  | cons bound rest ih =>
    obtain ⟨p, between, hfirst, h⟩ := run_bind_eq_ok_iff.mp h
    obtain ⟨others, _, hothers, h⟩ := run_bind_eq_ok_iff.mp h
    obtain ⟨rfl, _⟩ := run_pure_eq_ok_iff.mp h
    exact .cons (readsOff_ofBound hfirst) (ih hothers)

/-- Parameter objects have the keys and the locations of their fields, in order. -/
theorem names_of_readsOff {bounds : List (BoundField ParameterParser)} {params : List Parameter}
    (h : List.Forall₂ ReadsOff params bounds) :
    params.map (fun p => (p.name, p.location)) =
      bounds.map fun bound => (bound.key, bound.location) := by
  induction h with
  | nil => rfl
  | cons hfirst _ ih => rw [List.map_cons, List.map_cons, hfirst.name_eq, hfirst.location_eq, ih]

end Parameter

namespace BoundField

/-- Whether two fields are headers whose names are the same but for case. -/
def SameHeader {P : Type} (x y : BoundField P) : Prop :=
  x.location = .header ∧ y.location = .header ∧
    lowerText x.field.wireName = lowerText y.field.wireName

/-- Fields of different names have one key at one location only if they are the same header. -/
theorem key_eq_iff {P : Type} {x y : BoundField P}
    (hx : x.key = Binding.keyAt x.location x.field)
    (hy : y.key = Binding.keyAt y.location y.field) (hne : x.field.wireName ≠ y.field.wireName) :
    (x.key, x.location) = (y.key, y.location) ↔ x.SameHeader y := by
  rw [Prod.mk.injEq, hx, hy, SameHeader]
  constructor
  · rintro ⟨hkey, hlocation⟩
    rw [← hlocation] at hkey ⊢
    cases hheader : x.location with
    | header =>
      rw [hheader] at hkey
      exact ⟨rfl, rfl, hkey⟩
    | query =>
      rw [hheader] at hkey
      exact absurd hkey hne
    | path =>
      rw [hheader] at hkey
      exact absurd hkey hne
  · rintro ⟨hheader, hother, hlower⟩
    rw [hheader, hother]
    exact ⟨hlower, rfl⟩

end BoundField

namespace Classes

variable {C : Classes} {className : String} {b : Binder}

/-- Every field of a binder stands under its key at its location. -/
theorem key_of_binder (h : C.binder className = .ok b) :
    ∀ bound ∈ b.fields, bound.key = Binding.keyAt bound.location bound.field :=
  fun _ hbound => (bound_of_binder h hbound).2.1

/-- The fields of a binder have distinct names. -/
theorem pairwise_wireName_of_binder (h : C.binder className = .ok b) :
    b.fields.Pairwise fun x y => x.field.wireName ≠ y.field.wireName := by
  obtain ⟨hshape, _, hfields⟩ := binder_eq_ok h
  have hnames := (shape_eq_ok hshape).2.2
  rw [← hfields, List.map_map] at hnames
  exact List.pairwise_map.mp hnames

/-- Two fields of a binder have one key at one location only if they are the same header. -/
theorem pairwise_key_of_binder (h : C.binder className = .ok b) :
    b.fields.Pairwise fun x y => (x.key, x.location) = (y.key, y.location) ↔ x.SameHeader y := by
  have hkey := key_of_binder h
  refine (pairwise_wireName_of_binder h).imp_of_mem fun hx hy hne => ?_
  exact BoundField.key_eq_iff (hkey _ hx) (hkey _ hy) hne

/-- The fields of a record that is nested in a parameter have distinct keys. -/
theorem nodup_key_of_parameterParser {f : Field} {location : Location} {allowEmpty : Bool}
    {p : ObjectParser} (h : C.parameterParser f location allowEmpty = .ok (.object p)) :
    (p.fields.map (·.key)).Nodup := by
  unfold parameterParser at h
  split at h
  · cases h
  · split at h
    · obtain ⟨nested, hnested, h⟩ := bind_eq_ok_iff.mp h
      cases h
      obtain ⟨hshape, hbounds, _⟩ := nestedBinder_eq_ok hnested
      have hkeys : p.fields.map (·.key) = p.shape.fields.map (·.wireName) :=
        map_eq_of_mapM (fun f bound hmade => (boundNested_eq_ok hmade).2.2.2) hbounds
      rw [hkeys]
      exact (shape_eq_ok hshape).2.2
    · cases h

/-- A binder reads each raw value for one field, and its parameter objects are told apart by name
and location, as long as no two headers have names that differ in case only: just these are
documented and read as one parameter. The fields of a record that is nested in a parameter always
have keys of their own. -/
theorem parameters_of_binder (h : C.binder className = .ok b) :
    (b.fields.Pairwise fun x y => (x.key, x.location) = (y.key, y.location) ↔ x.SameHeader y) ∧
      (∀ builder params after, (Parameter.ofBinder C b).run builder = .ok params after →
        (params.map fun p => (p.name, p.location)) =
            b.fields.map (fun bound => (bound.key, bound.location)) ∧
          ((params.map fun p => (p.name, p.location)).Nodup ↔
            ((b.fields.filter (·.location = .header)).map fun bound =>
              lowerText bound.field.wireName).Nodup)) ∧
      ∀ bound ∈ b.fields, ∀ p, bound.parser = .object p → (p.fields.map (·.key)).Nodup := by
  have hpairs := pairwise_key_of_binder h
  refine ⟨hpairs, fun builder params after hrun => ?_, fun bound hbound p hparser => ?_⟩
  · have hnames := Parameter.names_of_readsOff (Parameter.readsOff_ofEach hrun)
    refine ⟨hnames, ?_⟩
    rw [hnames, List.Nodup, List.Nodup, List.pairwise_map, List.pairwise_map, List.pairwise_filter]
    constructor
    · intro hdistinct
      refine hpairs.imp₂ (fun x y hiff hne hx hy hlower => hne (hiff.mpr ?_)) hdistinct
      exact ⟨of_decide_eq_true hx, of_decide_eq_true hy, hlower⟩
    · intro hheaders
      refine hpairs.imp₂ (fun x y hiff hne hsame => ?_) hheaders
      obtain ⟨hx, hy, hlower⟩ := hiff.mp hsame
      exact hne (decide_eq_true hx) (decide_eq_true hy) hlower
  · obtain ⟨_, hbounds, _⟩ := binder_eq_ok h
    obtain ⟨f, _, hmade⟩ := exists_of_mem_mapM hbounds hbound
    obtain ⟨_, note, _, hmade, _, _⟩ := boundField_eq_ok hmade
    rw [hparser] at hmade
    exact nodup_key_of_parameterParser hmade

/-- A shape with a query parameter and two headers, all of whose names differ in case only. -/
def trace : Classes :=
  let headerNamed (name : String) : Hint :=
    .annotated (.builtin .text) [.parameter { location := .header }, .wireName name]
  ({} : Classes).define
    { name := "Trace", body := .record false,
      fields := [
        { name := "X-ID", default := .required,
          hint := .annotated (.builtin .text) [.parameter { location := .query }] },
        { name := "own", default := .required, hint := headerNamed "X-Id" },
        { name := "other", default := .required, hint := headerNamed "x-id" }] }

/-- The two headers are documented as one parameter, and apart from the query parameter. -/
theorem parameters_of_binder_trace :
    ∃ b params after, trace.binder "Trace" = .ok b ∧
      (Parameter.ofBinder trace b).run {} = .ok params after ∧
      (params.map fun p => (p.name, p.location)) =
        [("X-ID", .query), ("x-id", .header), ("x-id", .header)] ∧
      ¬((b.fields.filter (·.location = .header)).map fun bound =>
        lowerText bound.field.wireName).Nodup := by
  have hmade : ∃ b params after, trace.binder "Trace" = .ok b ∧
      (Parameter.ofBinder trace b).run {} = .ok params after ∧
      b.fields.map (fun bound => (bound.key, bound.location)) =
        [("X-ID", .query), ("x-id", .header), ("x-id", .header)] := ⟨_, _, _, rfl, rfl, rfl⟩
  obtain ⟨b, params, after, hb, hrun, hkeys⟩ := hmade
  obtain ⟨_, hdocumented, _⟩ := parameters_of_binder hb
  obtain ⟨hnames, hdistinct⟩ := hdocumented {} params after hrun
  rw [hkeys] at hnames
  refine ⟨b, params, after, hb, hrun, hnames, ?_⟩
  rw [← hdistinct, hnames]
  decide

end Classes

end HttpContract
