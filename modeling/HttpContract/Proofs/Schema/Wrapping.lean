import HttpContract.Proofs.ArrayItems
import HttpContract.Proofs.Schema.Beginnings

/-!
# Wrapped references

A reference has no room for anything beside it. What a type, the array around it or a default lays
on top of a class stands on a schema object that wraps the reference and nothing else. So it is in
whatever a builder makes, and in whatever state the builder is: what it makes is the same wherever
it begins.
-/

namespace HttpContract

/-- What constraints in a row set is what the first of them set, with what the others set on top. -/
theorem schemaAttributes_append (first second : List Constraint) :
    schemaAttributes (first ++ second) =
      (schemaAttributes second).foldl (fun limits (key, value) => Table.set key value limits)
        (schemaAttributes first) := by
  rw [schemaAttributes, List.flatMap_append, List.foldl_append]
  exact (Table.bindings_ofBindings _ _).symm

namespace Decoration

/-- What is laid on top of something when this is done twice. -/
def followedBy (d e : Decoration) : Decoration where
  limits := e.limits.foldl (fun limits (key, value) => Table.set key value limits) d.limits
  nullable := d.nullable || e.nullable
  default := e.default <|> d.default

/-- Nothing to lay on top is all that there is nothing of. -/
theorem eq_of_isEmpty {d : Decoration} (h : d.isEmpty = true) : d = {} := by
  obtain ⟨limits, nullable, default⟩ := d
  simp only [isEmpty, Bool.and_eq_true, List.isEmpty_iff, Bool.not_eq_true',
    Option.isNone_iff_eq_none] at h
  obtain ⟨⟨rfl, rfl⟩, rfl⟩ := h
  rfl

/-- There is nothing to lay on top twice only if there is nothing the first time. -/
theorem isEmpty_of_followedBy {d e : Decoration} (h : (d.followedBy e).isEmpty = true) :
    d.isEmpty = true := by
  simp only [isEmpty, Bool.and_eq_true, List.isEmpty_iff, Bool.not_eq_true',
    Option.isNone_iff_eq_none] at h ⊢
  obtain ⟨⟨hlimits, hnullable⟩, hdefault⟩ := h
  have hlimits : d.limits = [] ∧ e.limits = [] := Table.bindings_eq_nil_iff.mp hlimits
  have hdefault : e.default = none ∧ d.default = none := by simpa [followedBy] using hdefault
  exact ⟨⟨hlimits.1, (Bool.or_eq_false_iff.mp hnullable).1⟩, hdefault.2⟩

/-- Nothing laid on top afterwards changes nothing. -/
theorem followedBy_empty (d : Decoration) : d.followedBy {} = d := by
  simp [followedBy]

/-- What is laid on top of nothing is all that there is. -/
theorem empty_followedBy {e : Decoration} (he : e.limits.Distinct) :
    ({} : Decoration).followedBy e = e := by
  have hlimits : e.limits.foldl (fun limits (key, value) => Table.set key value limits) [] =
      e.limits := Table.ofBindings_of_distinct he
  simp [followedBy, hlimits]

end Decoration

namespace Schema

variable {s : Schema} {d e : Decoration}

/-- The schema of a name where it is used: a bare reference, or one that is wrapped so that
something can be laid on top. -/
def used (name : String) (d : Decoration) : Schema :=
  if d.isEmpty then ofReference name
  else {
    allOf := [ofReference name], limits := d.limits, nullable := d.nullable, default := d.default }

/-- A reference is used with what is laid on top of it. -/
theorem decorate_ofReference (name : String) (hd : d.limits.Distinct) :
    (ofReference name).decorate d = used name d := by
  have hlimits : d.limits.foldl (fun limits (key, value) => Table.set key value limits) [] =
      d.limits := Table.ofBindings_of_distinct hd
  have hreference : (ofReference name).reference.isSome = true := rfl
  unfold decorate used
  by_cases hempty : d.isEmpty = true
  · rw [if_pos hempty, if_pos hempty]
  · rw [if_neg hempty, if_neg hempty, if_pos hreference, withDecoration, hlimits]
    simp

/-- What is laid on top of a name that is used comes on top of what is there. -/
theorem decorate_used (name : String) (he : e.limits.Distinct) :
    (used name d).decorate e = used name (d.followedBy e) := by
  by_cases hd : d.isEmpty = true
  · obtain rfl := Decoration.eq_of_isEmpty hd
    rw [Decoration.empty_followedBy he, ← decorate_ofReference name he]
    rfl
  · by_cases hempty : e.isEmpty = true
    · obtain rfl := Decoration.eq_of_isEmpty hempty
      rw [Decoration.followedBy_empty]
      rfl
    · have hboth : ¬(d.followedBy e).isEmpty = true := fun h =>
        hd (Decoration.isEmpty_of_followedBy h)
      rw [used, if_neg hd, used, if_neg hboth, decorate, if_neg hempty]
      rfl

end Schema

namespace TypeInfo

/-- The schema at the heart of that of a type, inside of all arrays and maps. -/
def heart? : TypeInfo → Schema → Option Schema
  | .leaf .., s => some s
  | .array _ item _ _, s => s.items.bind item.heart?
  | .map item _ _, s => s.additionalProperties.bind item.heart?

/-- What is laid on top of the form at the heart of a type: its constraints and those of the array
directly around it, whether it may be null, and a default that is given for it and not for an array
or a map around it. -/
def worn (outer : List Constraint) (default : Option Json) : TypeInfo → Decoration
  | .leaf _ nullable notes =>
    { limits := schemaAttributes (constraintsIn notes ++ outer), nullable, default }
  | .array _ item _ notes => item.worn (constraintsIn notes) none
  | .map item _ _ => item.worn [] none

/-- At the heart of a type around a reference, the reference is used with all that is laid on top of
it, whether that is done at once or one after the other. -/
theorem heart?_dress (type : TypeInfo) (name : String) (outer : List Constraint)
    (default : Option Json) :
    type.heart? ((type.dress (.ofReference name)).decorate
      { limits := schemaAttributes outer, default }) =
        some (.used name (type.worn outer default)) := by
  -- What is laid on top of an array or a map stays there, but the constraints of an array are laid
  -- on top of its items.
  induction type generalizing outer default with
  | leaf form nullable notes =>
    rw [heart?, dress, Schema.decorate_ofReference name (distinct_schemaAttributes _),
      Schema.decorate_used name (distinct_schemaAttributes _), worn, schemaAttributes_append]
    simp [Decoration.followedBy]
  | array container item nullable notes ih =>
    have hkept {s : Schema} {d : Decoration} (hs : s.reference = none) :
        (s.decorate d).items = s.items := Schema.part_decorate Schema.items (fun _ _ _ _ => rfl) hs
    rw [heart?, dress, hkept (Schema.reference_decorate rfl), hkept rfl]
    exact ih (constraintsIn notes) none
  | map item nullable notes ih =>
    have hkept {s : Schema} {d : Decoration} (hs : s.reference = none) :
        (s.decorate d).additionalProperties = s.additionalProperties :=
      Schema.part_decorate Schema.additionalProperties (fun _ _ _ _ => rfl) hs
    rw [heart?, dress, hkept (Schema.reference_decorate rfl), hkept rfl]
    exact ih [] none

end TypeInfo

namespace Classes

variable {C : Classes}

/-- Whether a schema shows a type with a default: if there is a class at the heart of the type, it
is used there with all that is laid on top of it. -/
def Wraps (C : Classes) (type : TypeInfo) (default : Option Json) (s : Schema) : Prop :=
  type.core.isNamed = true →
    type.heart? s = some (.used (C.schemaNameOf type.core.label) (type.worn [] default))

/-- The schema of a type shows the type, with the default that is laid on top. -/
theorem wraps_schemaOf (C : Classes) (type : TypeInfo) (default : Option Json) :
    C.Wraps type default ((C.schemaOf type).decorate { default }) := by
  intro hnamed
  have hplain : C.plainSchema type.core = .ofReference (C.schemaNameOf type.core.label) := by
    cases hcore : type.core with
    | scalar s =>
      rw [hcore] at hnamed
      cases hnamed
    | any =>
      rw [hcore] at hnamed
      cases hnamed
    | enumeration name | record name | polymorphic name => rfl
  rw [schemaOf, hplain]
  exact type.heart?_dress _ [] default

/-- The default of a field as its schema shows it, if it has one. -/
def shownDefault (C : Classes) (f : Field) : Except Failure (Option Json) :=
  match f.default with
  | none => .ok none
  | some value => (SchemaBuilder.defaultJson C f value).map some

/-- Whether a schema shows a field: its type, with its default. -/
def Presents (C : Classes) (f : Field) (s : Schema) : Prop :=
  ∃ default, C.shownDefault f = .ok default ∧ C.Wraps f.type default s

/-- The property of a field shows the field. -/
theorem presents_propertyOf {f : Field} {s : Schema} (h : C.propertyOf f = .ok s) :
    C.Presents f s := by
  unfold propertyOf at h
  unfold Presents shownDefault
  cases hdefault : f.default with
  | none =>
    rw [hdefault] at h
    cases h
    exact ⟨none, rfl, C.wraps_schemaOf f.type none⟩
  | some value =>
    rw [hdefault] at h
    obtain ⟨default, hjson, h⟩ := bind_eq_ok_iff.mp h
    cases h
    exact ⟨some default, congrArg (Except.map some) hjson, C.wraps_schemaOf f.type (some default)⟩

/-- Every field has its property. -/
theorem exists_mem_propertiesOf {fields : List Field} {properties : List (String × Schema)}
    (h : C.propertiesOf fields = .ok properties) :
    ∀ f ∈ fields, ∃ s, C.propertyOf f = .ok s ∧ (f.wireName, s) ∈ properties := by
  induction fields generalizing properties with
  | nil => exact fun _ hf => (nomatch hf)
  | cons first rest ih =>
    obtain ⟨s, others, hs, hothers, rfl⟩ := propertiesOf_cons_iff.mp h
    refine List.forall_mem_cons.mpr ⟨⟨s, hs, List.mem_cons_self⟩, fun f hf => ?_⟩
    obtain ⟨t, ht, hmem⟩ := ih hothers f hf
    exact ⟨t, ht, List.mem_cons_of_mem _ hmem⟩

/-- Whether the schema of a form shows all fields, if the form is a record. -/
def PresentsFields (C : Classes) (form : Leaf) (s : Schema) : Prop :=
  ∀ className shape, form = .record className → C.shape className = .ok shape →
    ∀ f ∈ shape.fields, ∃ p ∈ s.properties.getD [], p.1 = f.wireName ∧ C.Presents f p.2

/-- The body of a record shows all its fields. -/
theorem presentsFields_bodyOf {form : Leaf} {s : Schema} (h : C.bodyOf form = .ok s) :
    C.PresentsFields form s := by
  rintro className shape rfl hshape f hf
  obtain ⟨parent, known, properties, _, hknown, hproperties, rfl⟩ := bodyOf_record_eq_ok h
  obtain rfl : shape = known := Except.ok.inj (hshape.symm.trans hknown)
  obtain ⟨property, hproperty, hmem⟩ := exists_mem_propertiesOf hproperties f hf
  exact ⟨_, List.mem_append_right _ hmem, rfl, presents_propertyOf hproperty⟩

end Classes

namespace SchemaBuilder

variable {C : Classes} {α : Type} {m : BuildSchema α}

/-- Once the reference to a class is given, it is out. -/
theorem mem_referenced_named {className : String} {body : BuildSchema Schema}
    (hbody : Step C body) {b after : SchemaBuilder} {s : Schema}
    (hrun : (named C className body).run b = .ok s after) : className ∈ after.referenced := by
  have hout (registry : SchemaRegistry) : className ∈ (b.referring registry className).referenced :=
    List.mem_append_right _ List.mem_cons_self
  rw [run_named] at hrun
  split at hrun
  · rename_i hbefore
    cases hrun
    exact hbefore
  · split at hrun
    · cases hrun
    · cases hrun
      exact hout _
    · split at hrun
      · rename_i hfinish
        cases hrun
        exact hbody.grows (Or.inl ⟨_, hfinish⟩) (hout _)
      · cases hrun

/-- A step that ended well does so again, with the same result, wherever all references are given
out already that it gave out. -/
theorem Step.run_again (h : Step C m) {b after other : SchemaBuilder} {a : α}
    (hrun : m.run b = .ok a after) (hknown : after.referenced ⊆ other.referenced) :
    ∃ last, m.run other = .ok a last := by
  induction h generalizing b after other with
  | pure x =>
    cases hrun
    exact ⟨other, rfl⟩
  | require result =>
    cases result with
    | error e => cases hrun
    | ok x =>
      cases hrun
      exact ⟨other, rfl⟩
  | ask bases =>
    cases hrun
    exact ⟨_, rfl⟩
  | @named className body hbody ih =>
    -- The reference is out by the end of the first run, so that the second one only gives it again.
    refine ⟨other, ?_⟩
    rw [run_named, if_pos (hknown (mem_referenced_named hbody hrun)), eq_of_run_named hrun]
  | bind hm hk ihm ihk =>
    obtain ⟨x, between, hfirst, hrun⟩ := run_bind_eq_ok_iff.mp hrun
    have hbetween : between.referenced ⊆ other.referenced :=
      List.Subset.trans ((hk x).grows (Or.inl ⟨a, hrun⟩)) hknown
    obtain ⟨middle, hmiddle⟩ := ihm hfirst hbetween
    have hmore : after.referenced ⊆ middle.referenced :=
      List.Subset.trans hknown (hm.grows (Or.inl ⟨x, hmiddle⟩))
    obtain ⟨last, hlast⟩ := ihk x hrun hmore
    exact ⟨last, run_bind_eq_ok_iff.mpr ⟨x, middle, hmiddle, hlast⟩⟩

/-- A sound builder that has given out references to certain classes. -/
def knowing (names : List String) : SchemaBuilder where
  registry := { entries := names.eraseDups.map fun name => { name, owner := name } }
  referenced := names.eraseDups

/-- It is sound. -/
theorem sound_knowing (names : List String) : (knowing names).Sound := by
  have hnames (part : SchemaEntry → String) (hpart : ∀ name, part { name, owner := name } = name) :
      (knowing names).registry.entries.map part = names.eraseDups := by
    rw [knowing, List.map_map]
    exact (List.map_congr_left fun name _ => hpart name).trans (List.map_id _)
  refine ⟨hnames (·.owner) fun _ => rfl, ?_⟩
  rw [hnames (·.name) fun _ => rfl]
  exact Classes.nodup_eraseDups names

/-- What a step makes in a sound builder it makes in any builder. -/
theorem Makes.result {forms : List Leaf} {P : α → Prop} (hmakes : Makes C m forms P)
    (hstep : Step C m) {b after : SchemaBuilder} {a : α} (hrun : m.run b = .ok a after) : P a := by
  have hknown : after.referenced ⊆ (knowing after.referenced).referenced := fun name hname =>
    List.mem_eraseDups.mpr hname
  obtain ⟨last, hlast⟩ := hstep.run_again hrun hknown
  exact (hmakes (sound_knowing after.referenced) hlast).1

/-- Whether every finished entry of a builder is one of those in front, or has the body of a
class. -/
def Finishes (C : Classes) (front : List SchemaEntry) (b : SchemaBuilder) : Prop :=
  ∀ entry ∈ b.registry.entries, ∀ s, entry.schema = some s →
    entry ∈ front ∨ ∃ form, entry.name = C.schemaNameOf form.label ∧ C.bodyOf form = .ok s

variable {front : List SchemaEntry}

/-- A reference that is given out finishes no schema. -/
theorem Finishes.refer {b : SchemaBuilder} (h : Finishes C front b) {className : String}
    {isNew : Bool} {registry : SchemaRegistry}
    (hreserve : b.registry.reserve (C.schemaNameOf className) className = .ok (isNew, registry)) :
    Finishes C front (b.referring registry className) := by
  intro entry hentry s hs
  obtain ⟨_, ⟨_, _, hentries⟩ | ⟨_, _, hentries⟩⟩ := SchemaRegistry.reserve_eq_ok hreserve
  · rw [referring, hentries] at hentry
    obtain hentry | hentry := List.mem_append.mp hentry
    · exact h entry hentry s hs
    · rw [List.mem_singleton.mp hentry] at hs
      cases hs
  · rw [referring, hentries] at hentry
    exact h entry hentry s hs

/-- The name of a class is finished with its body. -/
theorem Finishes.complete {b : SchemaBuilder} (h : Finishes C front b) {form : Leaf} {body : Schema}
    (hbody : C.bodyOf form = .ok body) :
    Finishes C front (b.completing (C.schemaNameOf form.label) body) := by
  intro entry hentry s hs
  obtain ⟨before, hbefore, rfl⟩ := List.mem_map.mp hentry
  split at hs
  · rename_i hname
    cases hs
    rw [if_pos hname]
    exact Or.inr ⟨form, hname, hbody⟩
  · rename_i hname
    rw [if_neg hname]
    exact h before hbefore s hs

/-- The look-up of bases finishes nothing. -/
theorem composable_finishes (C : Classes) (front : List SchemaEntry) :
    Composable fun _ m => Keeps (Finishes C front) m :=
  composable_keeps fun _ _ h => h

/-- The references to forms finish the bodies of classes, whatever the builder is like. -/
theorem keeps_finishes_leafSchema (C : Classes) (front : List SchemaEntry) (depth : Nat)
    (form : Leaf) : Keeps (Finishes C front) (leafSchema C depth form) := by
  refine keeps_leafSchema (composable_finishes C front) (fun form body hstep hbody hmakes => ?_)
    depth form
  refine keeps_named (fun b isNew registry _ hreserve hb => hb.refer hreserve) hbody ?_
  intro b finish registry schema _ _ _ hrun hfinish
  exact hfinish.complete (hmakes.result hstep hrun)

end SchemaBuilder

namespace BuildCall

/-- A call finishes the bodies of classes, whatever the builder is like and however the call
ends. -/
theorem keeps_finishes_perform (C : Classes) (front : List SchemaEntry) (call : BuildCall) :
    Keeps (SchemaBuilder.Finishes C front) (call.perform C) := by
  have hparts := SchemaBuilder.composable_finishes C front
  have hleaf := SchemaBuilder.keeps_finishes_leafSchema C front (SchemaBuilder.greatestDepth C)
  cases call with
  | hint h => exact hparts.ofHint hleaf h
  | field f => exact hparts.fieldSchema hleaf f

/-- Whether a schema shows what a call is about: the type that a hint resolves to, or a field. -/
def ShownBy (C : Classes) (s : Schema) : BuildCall → Prop
  | .hint h => ∃ type, C.resolve h [] = .ok type ∧ C.Wraps type none s
  | .field f => C.Presents f s

/-- Whatever classes are described and whatever state a builder is in, references stand apart in the
schema that a call gives, and in every schema that is registered on the way, however the call ends.
A schema object that is a reference is nothing else, and one that wraps something wraps one
reference alone. What is laid on top of a class by the type, by the array around it or as a default
stands on the schema object that wraps its reference. -/
theorem apart_perform (C : Classes) (call : BuildCall) (b after : SchemaBuilder) :
    (∀ s, (call.perform C).run b = .ok s after → s.Apart ∧ call.ShownBy C s) ∧
      (Ends (call.perform C) b after →
        ∀ entry ∈ after.registry.entries, ∀ s, entry.schema = some s →
          entry ∈ b.registry.entries ∨
            s.Apart ∧ ∃ form, entry.name = C.schemaNameOf form.label ∧ C.bodyOf form = .ok s ∧
              C.PresentsFields form s) := by
  constructor
  · intro s hrun
    have hstep := call.step_perform C
    cases call with
    | hint h =>
      obtain ⟨type, htype, rfl⟩ := (SchemaBuilder.Makes.ofHint h).result hstep hrun
      exact ⟨C.apart_schemaOf type, type, htype, C.wraps_schemaOf type none⟩
    | field f =>
      have hproperty := (SchemaBuilder.Makes.ofField f).result hstep hrun
      exact ⟨Classes.apart_propertyOf hproperty, Classes.presents_propertyOf hproperty⟩
  · intro hends entry hentry s hs
    have hstart : SchemaBuilder.Finishes C b.registry.entries b := fun _ hbefore _ _ =>
      Or.inl hbefore
    obtain hbefore | ⟨form, hname, hbody⟩ :=
      call.keeps_finishes_perform C b.registry.entries hends hstart entry hentry s hs
    · exact Or.inl hbefore
    · exact Or.inr ⟨Classes.apart_bodyOf hbody, form, hname, hbody,
        Classes.presentsFields_bodyOf hbody⟩

end BuildCall

/-- One color. -/
def Classes.colors : Classes :=
  ({} : Classes).define
    { name := "Color", body := .enumeration ⟨.plain, [("RED", .text "red")]⟩ }

/-- A field for an enumeration that may be null, with a constraint and a default: all of it stands
beside the reference that is wrapped, and the schema of the enumeration is registered without. -/
theorem BuildCall.apart_perform_colors :
    let f : Field :=
      { name := "color", wireName := "color", initName := "color", parameter := none,
        type := .leaf (.enumeration "Color") true [.constraint (.minLength 3 none)],
        default := some (.member "Color" "RED" .plain (.text "red")) }
    ∃ s after, (perform Classes.colors (.field f)).run {} = .ok s after ∧ s.Apart ∧
      s = { allOf := [.ofReference "Color"], nullable := true, default := some (.text "red"),
            limits := [(.minLength, .int 3)] } ∧
      after.registry.entries.map (·.name) = ["Color"] ∧
      ∀ entry ∈ after.registry.entries, ∀ body, entry.schema = some body → body.Apart := by
  intro f
  have hruns : ∃ s after, (perform Classes.colors (.field f)).run {} = .ok s after ∧
      after.registry.entries.map (·.name) = ["Color"] := ⟨_, _, rfl, rfl⟩
  obtain ⟨s, after, hrun, hnames⟩ := hruns
  obtain ⟨hgiven, hregistered⟩ := apart_perform Classes.colors (.field f) {} after
  obtain ⟨hapart, default, hdefault, hwraps⟩ := hgiven s hrun
  obtain rfl : some (.text "red") = default := Except.ok.inj hdefault
  refine ⟨s, after, hrun, hapart, Option.some.inj (hwraps rfl), hnames, ?_⟩
  intro entry hentry body hbody
  obtain hbefore | ⟨hbodyApart, _⟩ := hregistered (Or.inl ⟨s, hrun⟩) entry hentry body hbody
  · cases hbefore
  · exact hbodyApart

end HttpContract
