import HttpContract.Proofs.Absence
import HttpContract.Proofs.Discriminators

/-!
# The order of calls

What a call gives depends on the classes alone. What the registry holds may depend on the order of
calls, because the name of a class goes to the body of the form as which the class is met first, and
a base of variants that is a variant of another base can be met as both. Otherwise any order gives
the same registry.
-/

namespace HttpContract

namespace BuildCall

variable {C : Classes}

/-- What a call gives, as a function of the classes alone. -/
def answer (C : Classes) : BuildCall → Schema
  | .hint h => ((C.resolve h []).toOption.map C.schemaOf).getD {}
  | .field f => (C.propertyOf f).toOption.getD {}

/-- A call that ends well gives its answer. -/
theorem makes_answer (call : BuildCall) :
    SchemaBuilder.Makes C (call.perform C) (call.form? C).toList (· = call.answer C) := by
  cases call with
  | hint h =>
    refine (SchemaBuilder.Makes.ofHint h).imp ?_
    rintro s ⟨type, htype, rfl⟩
    rw [answer, htype]
    rfl
  | field f =>
    refine (SchemaBuilder.Makes.ofField f).imp fun s hs => ?_
    rw [answer, hs]
    rfl

/-- Calls that all end well give their answers. -/
theorem returned_performAll {calls : List BuildCall} {returned : List Schema}
    {b after : SchemaBuilder} (hsound : b.Sound)
    (hrun : (performAll C calls).run b = .ok returned after) :
    returned = calls.map (answer C) := by
  induction calls generalizing b returned with
  | nil =>
    cases hrun
    rfl
  | cons call rest ih =>
    obtain ⟨s, between, hfirst, hrun⟩ := run_bind_eq_ok_iff.mp hrun
    obtain ⟨others, last, hrest, hrun⟩ := run_bind_eq_ok_iff.mp hrun
    cases hrun
    obtain ⟨rfl, hbetween, _⟩ := makes_answer call hsound hfirst
    rw [List.map_cons, ih hbetween hrest]

end BuildCall

/-- Whether no class was met as one form here and as another one there. -/
def Classes.Alike (met met' : List Leaf) : Prop :=
  ∀ form ∈ met, ∀ form' ∈ met', form.label = form'.label → form = form'

namespace Classes

variable {C : Classes} {forms forms' met met' : List Leaf}

/-- Classes that were met as the same forms stay so when they change sides. -/
theorem Alike.symm (h : Alike met met') : Alike met' met :=
  fun form hform other hother hlabel => (h other hother form hform hlabel.symm).symm

/-- What one walk meets a walk along the same forms meets as well, when no class is met differently.
-/
theorem Meets.subset_of_alike (h : C.Meets [] forms met) (h' : C.Meets [] forms' met')
    (hforms : forms ⊆ forms') (halike : Alike met met') : met ⊆ met' := by
  intro form hform
  obtain ⟨root, hroot, hnamed, hpath⟩ := h.led hform
  have hreached {label : String} (hpath : Relation.ReflTransGen (C.Leads met) root.label label) :
      label ∈ met'.map Leaf.label := by
    induction hpath with
    | refl => exact h'.label_mem (hforms hroot) hnamed
    | tail _ hlead ih =>
      obtain ⟨between, hbetween, rfl, inside, hinside, hinsideNamed, rfl⟩ := hlead
      obtain ⟨other, hother, hlabel⟩ := List.mem_map.mp ih
      obtain rfl := halike between hbetween other hother hlabel.symm
      exact h'.below_mem hother hinside hinsideNamed
  obtain ⟨other, hother, hlabel⟩ := List.mem_map.mp (hreached hpath)
  exact halike form hform other hother hlabel.symm ▸ hother

/-- Forms of one class that have the same body are the same form. -/
theorem eq_of_bodyOf_eq {form form' : Leaf} {s : Schema} (hform : form.isNamed = true)
    (hform' : form'.isNamed = true) (hlabel : form.label = form'.label)
    (hs : C.bodyOf form = .ok s) (hs' : C.bodyOf form' = .ok s) : form = form' := by
  have hkind : ∀ {form : Leaf}, form.isNamed = true → C.bodyOf form = .ok s →
      form = if s.discriminator.isSome then .polymorphic form.label
        else if s.properties.isSome then .record form.label else .enumeration form.label := by
    intro form hnamed hbody
    cases form with
    | polymorphic name | enumeration name =>
      obtain ⟨_, _, hbody⟩ := bind_eq_ok_iff.mp hbody
      cases hbody
      rfl
    | record name =>
      obtain ⟨_, _, _, _, _, _, rfl⟩ := bodyOf_record_eq_ok hbody
      rfl
    | scalar type | any => cases hnamed
  rw [hkind hform hs, hkind hform' hs', hlabel]

/-- Whether every variant is a record by itself, and thus no base and no enumeration. -/
def VariantsAreRecords (C : Classes) : Prop :=
  ∀ base h, C.hierarchy base = .ok h → ∀ v ∈ h.variants, C.leaf? v.2 = some (.record v.2)

/-- Where variants are records, classes are met as the forms that they have. -/
theorem Meets.isOwn (h : C.Meets [] forms met) (hrecords : C.VariantsAreRecords)
    (hforms : ∀ form ∈ forms, form.IsOwn C) : ∀ form ∈ met, form.IsOwn C := by
  refine h.forall_of_below (fun form _ inside hinside => ?_) hforms
  rcases isOwn_or_record_of_below hinside with hown | ⟨base, own, _, _, _, hown, hv, rfl⟩
  · exact hown
  · exact fun _ => hrecords base own hown _ hv

/-- Classes that are met as the forms that they have are met alike everywhere. -/
theorem alike_of_isOwn (hnamed : ∀ form ∈ met, form.isNamed = true)
    (hnamed' : ∀ form ∈ met', form.isNamed = true) (hown : ∀ form ∈ met, form.IsOwn C)
    (hown' : ∀ form ∈ met', form.IsOwn C) : Alike met met' := by
  intro form hform form' hform' hlabel
  have hfound := hown form hform (hnamed form hform)
  rw [hlabel, hown' form' hform' (hnamed' form' hform')] at hfound
  exact (Option.some.inj hfound).symm

end Classes

/-- The schemas by name are the bodies of the forms that were met. -/
theorem SchemaRegistry.Holds.schema?_eq_some_iff {C : Classes} {met : List Leaf}
    {r : SchemaRegistry} (hholds : Holds C met r) {name : String} {s : Schema} :
    r.schema? name = some s ↔
      ∃ form ∈ met, C.schemaNameOf form.label = name ∧ C.bodyOf form = .ok s := by
  constructor
  · intro hfound
    obtain ⟨entry, hentry, hs⟩ := Option.bind_eq_some_iff.mp hfound
    have hname : entry.name = name := by simpa using List.find?_some hentry
    have hmem := List.mem_of_find?_eq_some hentry
    rw [hholds.entries, List.mem_map] at hmem
    obtain ⟨form, hform, rfl⟩ := hmem
    obtain ⟨body, hbody⟩ := hholds.finished form hform
    rw [Classes.finishedEntry, hbody] at hs
    cases hs
    exact ⟨form, hform, hname, hbody⟩
  · rintro ⟨form, hform, rfl, hs⟩
    exact hholds.schema?_eq hform hs

/-- The schema that is registered for a class is the body of the form as which the class was met. -/
theorem SchemaRegistry.Holds.exists_body {C : Classes} {met : List Leaf} {r : SchemaRegistry}
    (hholds : Holds C met r) {className : String} (hregistered : className ∈ met.map Leaf.label)
    {s : Schema} (hs : r.schema? (C.schemaNameOf className) = some s) :
    ∃ form ∈ met, form.label = className ∧ C.bodyOf form = .ok s := by
  obtain ⟨form, hform, hname, hbody⟩ := hholds.schema?_eq_some_iff.mp hs
  obtain ⟨registered, hmem, rfl⟩ := List.mem_map.mp hregistered
  have hnames := hholds.names
  rw [hholds.entries, List.map_map] at hnames
  obtain rfl : form = registered := List.inj_on_of_nodup_map hnames hform hmem hname
  exact ⟨form, hform, rfl, hbody⟩

/-- Calls that all end well in two orders give the same schemas, and make the same registry exactly
when no class was met as one form in the first order and as another one in the second. Where every
variant is a record by itself this is always so. -/
theorem BuildCall.orders_performAll {C : Classes} {calls calls' : List BuildCall}
    (hperm : calls.Perm calls') {returned returned' : List Schema} {b b' : SchemaBuilder}
    (hrun : (performAll C calls).run {} = .ok returned b)
    (hrun' : (performAll C calls').run {} = .ok returned' b') :
    returned = calls.map (answer C) ∧ returned' = calls'.map (answer C) ∧
      ∃ met met', C.Meets [] (forms C calls) met ∧ C.Meets [] (forms C calls') met' ∧
        b.registry.entries.map (·.owner) = met.map Leaf.label ∧
        b'.registry.entries.map (·.owner) = met'.map Leaf.label ∧
        ((∀ name, b.registry.schema? name = b'.registry.schema? name) ↔
          Classes.Alike met met') ∧
        (C.VariantsAreRecords → (∀ call ∈ calls, call.IsProper C) → Classes.Alike met met') := by
  have hfresh : ({} : SchemaBuilder).Sound := ⟨rfl, List.nodup_nil⟩
  obtain ⟨met, hmeets, hholds, howners⟩ := holds_performAll hrun
  obtain ⟨met', hmeets', hholds', howners'⟩ := holds_performAll hrun'
  have hforms : forms C calls ⊆ forms C calls' := (hperm.filterMap _).subset
  have hforms' : forms C calls' ⊆ forms C calls := (hperm.symm.filterMap _).subset
  refine ⟨returned_performAll hfresh hrun, returned_performAll hfresh hrun', met, met', hmeets,
    hmeets', howners, howners', ⟨fun hsame form hform form' hform' hlabel => ?_, fun halike => ?_⟩,
    fun hrecords hproper => ?_⟩
  · obtain ⟨s, hs⟩ := hholds.finished form hform
    have hfound := hholds.schema?_eq hform hs
    rw [hsame, hlabel] at hfound
    obtain ⟨s', hs'⟩ := hholds'.finished form' hform'
    rw [hholds'.schema?_eq hform' hs'] at hfound
    cases hfound
    exact Classes.eq_of_bodyOf_eq (hmeets.isNamed form hform) (hmeets'.isNamed form' hform') hlabel
      hs hs'
  · have hsubset := hmeets.subset_of_alike hmeets' hforms halike
    have hsubset' := hmeets'.subset_of_alike hmeets hforms' halike.symm
    intro name
    refine Option.ext fun s => ?_
    rw [hholds.schema?_eq_some_iff, hholds'.schema?_eq_some_iff]
    constructor
    · rintro ⟨form, hform, hrest⟩
      exact ⟨form, hsubset hform, hrest⟩
    · rintro ⟨form, hform, hrest⟩
      exact ⟨form, hsubset' hform, hrest⟩
  · have hown : ∀ form ∈ forms C calls, form.IsOwn C := by
      intro form hform
      obtain ⟨call, hcall, hfound⟩ := List.mem_filterMap.mp hform
      exact isOwn_of_form? (hproper call hcall) hfound
    exact Classes.alike_of_isOwn hmeets.isNamed hmeets'.isNamed (hmeets.isOwn hrecords hown)
      (hmeets'.isOwn hrecords fun form hform => hown form (hforms' hform))

/-- A variant that is a base of variants itself. -/
def Classes.breeds : Classes :=
  ((({} : Classes).define
    { name := "Animal", body := .plain, notes := { discriminator := some "type" } }).define
    { name := "Dog", bases := ["Animal"], body := .record false,
      fields := [{ name := "age", hint := .builtin .integer, default := .required }],
      notes := { discriminator := some "kind" } }).define
    { name := "Poodle", bases := ["Dog"], body := .record false }

/-- The variant that is a base itself is registered as a base when it is asked for first, and as a
record when its base is. -/
theorem BuildCall.orders_performAll_breeds :
    let dog := BuildCall.hint (.named "Dog")
    let animal := BuildCall.hint (.named "Animal")
    ∃ returned b returned' b' met met',
      (performAll Classes.breeds [dog, animal]).run {} = .ok returned b ∧
      (performAll Classes.breeds [animal, dog]).run {} = .ok returned' b' ∧
      returned' = returned.reverse ∧
      b.registry.entries.map (·.owner) = met.map Leaf.label ∧
      b'.registry.entries.map (·.owner) = met'.map Leaf.label ∧
      b.registry.schema? "Dog" ≠ b'.registry.schema? "Dog" ∧ ¬Classes.Alike met met' := by
  let dog := BuildCall.hint (.named "Dog")
  let animal := BuildCall.hint (.named "Animal")
  obtain ⟨returned, b, hrun, hbase⟩ : ∃ returned b,
      (performAll Classes.breeds [dog, animal]).run {} = .ok returned b ∧
        ((b.registry.schema? "Dog").bind (·.discriminator)).isSome = true := ⟨_, _, rfl, rfl⟩
  obtain ⟨returned', b', hrun', hrecord⟩ : ∃ returned b,
      (performAll Classes.breeds [animal, dog]).run {} = .ok returned b ∧
        ((b.registry.schema? "Dog").bind (·.discriminator)).isSome = false := ⟨_, _, rfl, rfl⟩
  obtain ⟨hanswers, hanswers', met, met', _, _, howners, howners', hsame, _⟩ :=
    orders_performAll (List.Perm.swap animal dog []) hrun hrun'
  have hdiffer : b.registry.schema? "Dog" ≠ b'.registry.schema? "Dog" := by
    intro heq
    rw [heq, hrecord] at hbase
    cases hbase
  refine ⟨returned, b, returned', b', met, met', hrun, hrun', ?_, howners, howners', hdiffer,
    fun halike => hdiffer (hsame.mpr halike "Dog")⟩
  rw [hanswers, hanswers']
  rfl

end HttpContract
