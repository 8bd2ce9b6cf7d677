import HttpContract.Proofs.Acceptance
import HttpContract.Proofs.Body.Typing
import HttpContract.Proofs.Schema.Building

/-!
# Items of arrays beside the schema of the items

The constraints of an array are those of its items, besides the constraints that the item type has
itself. An item is put under those of the array first and under its own after them, while the schema
lays what the array shows over what the item type shows. So an item meets what its schema shows,
unless a clamp of the item type has moved it past an attribute that the array shows in its place.
-/

namespace HttpContract

namespace Classes

variable {C : Classes} {f : Field} {container : Container} {item type : TypeInfo} {nullable : Bool}
  {notes : List Note} {s : Schema}

/-- The property of an array field has for its items the schema of the item type, with what the
array shows laid on top. -/
theorem items_propertyOf (htype : f.type = .array container item nullable notes)
    (hs : C.propertyOf f = .ok s) :
    s.items = some ((C.schemaOf item).decorate { limits := schemaAttributes f.constraints }) := by
  have hschema : (C.schemaOf f.type).reference = none ∧ (C.schemaOf f.type).items =
      some ((C.schemaOf item).decorate { limits := schemaAttributes f.constraints }) := by
    rw [Field.constraints, htype]
    exact ⟨Schema.reference_decorate rfl,
      Schema.part_decorate Schema.items (fun _ _ _ _ => rfl) rfl⟩
  obtain rfl | ⟨default, rfl⟩ := propertyOf_cases hs
  · exact hschema.2
  · rw [Schema.part_decorate Schema.items (fun _ _ _ _ => rfl) hschema.1, hschema.2]

/-- The schema of items shows what the array shows, and besides what the item type shows. -/
theorem get?_limits_items (C : Classes) (item : TypeInfo) (constraints : List Constraint)
    (key : ConstraintAttribute) :
    Table.get? key ((C.schemaOf item).decorate { limits := schemaAttributes constraints }).limits =
      (Table.get? key (schemaAttributes constraints)).or (Table.get? key item.shown) := by
  have hdistinct : item.shown.Distinct := by
    cases item with
    | array => exact List.nodup_nil
    | leaf | map => exact distinct_schemaAttributes _
  have hreference : (C.schemaOf item).reference = none ∨ (C.schemaOf item).limits = [] := by
    cases href : (C.schemaOf item).reference with
    | none => exact Or.inl rfl
    | some name =>
      have hbare := (Schema.bareReferences_iff _).mp (C.bareReferences_schemaOf item)
      rw [hbare.1 name href]
      exact Or.inr rfl
  rw [Schema.limits_decorate_of_distinct hreference (by rwa [limits_schemaOf]), limits_schemaOf,
    Table.get?_ofBindings, List.reverse_append, Table.get?_append, Table.get?_reverse hdistinct,
    Table.get?_reverse (distinct_schemaAttributes _)]

end Classes

/-- A constraint that fits a type fits a scalar type whose values it is applied to. -/
theorem Constraint.exists_scalar_of_fits {c : Constraint} {type : TypeInfo} (h : c.Fits type) :
    ∃ s nullable notes, type = .leaf (.scalar s) nullable notes ∧
      Body.takesConstraints s = true := by
  obtain ⟨hadmits, _⟩ := h
  cases type with
  | array | map => cases hadmits
  | leaf form nullable notes =>
    cases form with
    | scalar s =>
      cases s with
      | text | integer | number => exact ⟨_, _, _, rfl, rfl⟩
      | _ => cases hadmits
    | _ => cases hadmits

/-- Where the schema of the items of a checked array shows an attribute, the items are texts or
numbers, and all constraints on them fit. -/
theorem exists_scalar_of_shown {owner : String} {container : Container} {item : TypeInfo}
    {nullable : Bool} {notes : List Note} {constraints : List Constraint}
    (hcheck : checkConstraints owner (.array container item nullable notes) constraints = .ok ())
    {key : ConstraintAttribute} {value : Json}
    (hshown : (Table.get? key (schemaAttributes constraints)).or (Table.get? key item.shown) =
      some value) :
    ∃ s itemNullable itemNotes, item = .leaf (.scalar s) itemNullable itemNotes ∧
      Body.takesConstraints s = true ∧ ∀ c ∈ constraints ++ item.constraints, c.Fits item := by
  obtain ⟨_, houter, hinner⟩ := bind_eq_ok_iff.mp hcheck
  have houter : ∀ c ∈ constraints, c.Fits item := fits_of_checkEach houter
  have hset {cs : List Constraint} (h : Table.get? key (schemaAttributes cs) = some value) :
      ∃ c, c ∈ cs := by
    apply List.exists_mem_of_ne_nil
    rintro rfl
    cases h
  have hsome : ∃ c : Constraint, c.Fits item := by
    obtain h | ⟨_, h⟩ := Option.or_eq_some_iff.mp hshown
    · obtain ⟨c, hc⟩ := hset h
      exact ⟨c, houter c hc⟩
    · cases item with
      | array => cases h
      | leaf | map =>
        obtain ⟨c, hc⟩ := hset h
        exact ⟨c, fits_of_checkEach hinner c hc⟩
  obtain ⟨c, hc⟩ := hsome
  obtain ⟨s, itemNullable, itemNotes, rfl, htakes⟩ := Constraint.exists_scalar_of_fits hc
  exact ⟨s, itemNullable, itemNotes, rfl, htakes,
    List.forall_mem_append.mpr ⟨houter, fits_of_checkEach hinner⟩⟩

section Layers

variable {outer inner : List Constraint} {place : String} {v w : Value} {type : Scalar}
  {nullable : Bool} {notes : List Note} {key : ConstraintAttribute} {value : Json}

/-- A value that has passed two layers of constraints meets what the outer one shows, unless the
inner one moves values past it. -/
theorem meets_outer_of_layers
    (hfits : ∀ c ∈ outer ++ inner, c.Fits (.leaf (.scalar type) nullable notes))
    (hbounds : ∀ c ∈ outer, c.BoundsInOrder) (hv : type.Takes v)
    (h : applyConstraints (outer ++ inner) v place = .ok w)
    (hshown : Table.get? key (schemaAttributes outer) = some value)
    (hpast : ∀ c ∈ inner, ¬c.MovesPast key value) : w.Meets key value := by
  rw [applyConstraints, applyInOrder_append] at h
  obtain ⟨reshaped, hreshaped, h⟩ := bind_eq_ok_iff.mp h
  rw [List.filter_append, applyInOrder_append] at h
  obtain ⟨between, hbetween, h⟩ := bind_eq_ok_iff.mp h
  have htakes : type.Takes reshaped :=
    takes_applyInOrder (fun c hc => hfits c (List.mem_of_mem_filter hc)) hv hreshaped
  have hmeets : between.MeetsShown outer :=
    meetsShown_of_plain (fun c hc => hfits c (List.mem_append_left _ hc)) hbounds htakes hbetween
  refine meets_applyInOrder (fun c hc => ?_) (fun c hc => hpast c (List.mem_of_mem_filter hc))
    (hmeets key value hshown) h
  simpa using (List.mem_filter.mp hc).2

/-- A value that has passed two layers of constraints meets what the outer one shows, and else what
the inner one shows, if the inner one shows the same or moves no value past it. -/
theorem meets_of_layers
    (hfits : ∀ c ∈ outer ++ inner, c.Fits (.leaf (.scalar type) nullable notes))
    (hbounds : ∀ c ∈ outer ++ inner, c.BoundsInOrder) (hv : type.Takes v)
    (h : applyConstraints (outer ++ inner) v place = .ok w)
    (hshown : (Table.get? key (schemaAttributes outer)).or
      (Table.get? key (schemaAttributes inner)) = some value)
    (hkept : Table.get? key (schemaAttributes inner) = some value ∨
      ∀ c ∈ inner, ¬c.MovesPast key value) : w.Meets key value := by
  have hwhole (hinner : Table.get? key (schemaAttributes inner) = some value) :
      w.Meets key value := by
    refine meetsShown_applyConstraints hfits hbounds hv h key value ?_
    rw [get?_schemaAttributes_append, hinner, Option.some_or]
  rcases hkept with hinner | hpast
  · exact hwhole hinner
  · obtain houter | ⟨_, hinner⟩ := Option.or_eq_some_iff.mp hshown
    · exact meets_outer_of_layers hfits (fun c hc => hbounds c (List.mem_append_left _ hc)) hv h
        houter hpast
    · exact hwhole hinner

end Layers

/-- The items that a value holds. -/
def Value.items : Value → List Value
  | .list items | .tuple items | .set _ items => items
  | _ => []

/-- What is left without repeats was there before. -/
theorem Value.mem_of_mem_withoutRepeats {vs : List Value} {w : Value} (h : w ∈ withoutRepeats vs) :
    w ∈ vs := by
  have hkept (kept : List Value)
      (hw : w ∈ vs.foldl (fun kept v => if v.isAmong kept then kept else kept ++ [v]) kept) :
      w ∈ kept ∨ w ∈ vs := by
    clear h
    induction vs generalizing kept with
    | nil => exact Or.inl hw
    | cons v rest ih =>
      rw [List.foldl_cons] at hw
      obtain hbefore | hrest := ih _ hw
      · split at hbefore
        · exact Or.inl hbefore
        · obtain hbefore | hv := List.mem_append.mp hbefore
          · exact Or.inl hbefore
          · exact Or.inr (List.mem_cons.mpr (Or.inl (List.mem_singleton.mp hv)))
      · exact Or.inr (List.mem_cons_of_mem v hrest)
  obtain h | h := hkept [] h
  · cases h
  · exact h

/-- A filled container holds nothing but the items that it is filled with. -/
theorem Container.mem_of_mem_fill {container : Container} {items : List Value} {w : Value}
    (h : w ∈ (container.fill items).items) : w ∈ items := by
  cases container with
  | list | tuple => exact h
  | set | frozenset => exact Value.mem_of_mem_withoutRepeats h

namespace Field

/-- The items that an array field may get: those of a value that its parser makes of the texts of a
request, or that a JSON value is read as at its type. -/
inductive HasItem (C : Classes) (f : Field) : Value → Prop
  | parsed {location : Location} {allowEmpty : Bool} {p : FlatParser} {name : String}
      {raw : RawValues} {v w : Value} (hp : Binding.flatParser? f location allowEmpty = some p)
      (hv : p.build C name raw = .ok (some v)) (hw : w ∈ v.items) : HasItem C f w
  | read {j : Json} {path : String} {v w : Value} (hv : Body.readValue C f.type j path = .ok v)
      (hw : w ∈ v.items) : HasItem C f w

end Field

section Entering

variable {C : Classes} {type : Scalar} {v w : Value} {path : String} {constraints : List Constraint}

/-- A value of a type that takes constraints counts as what they are for. -/
theorem takes_of_parsed (htakes : Body.takesConstraints type = true)
    (h : Binding.Parsed (.scalar type) v) : type.Takes v := by
  cases h with
  | text s => exact ⟨s, rfl⟩
  | integer n | number n => exact ⟨n, rfl⟩
  | boolean | uuid | date | dateTime => cases htakes

/-- No text is converted to not a number. -/
theorem Binding.ne_nan_of_convert? {s : String} (h : convert? C (.scalar type) s = some v) :
    v.asNumber? ≠ some (.float .nan) := by
  cases type with
  | text =>
    cases h
    rintro ⟨⟩
  | number =>
    obtain ⟨x, hx, rfl⟩ := Option.map_eq_some_iff.mp h
    have hfinite : x.isFinite = true := (Option.filter_eq_some_iff.mp hx).2
    rintro ⟨⟩
    cases hfinite
  | integer | boolean | uuid | date | dateTime =>
    obtain ⟨x, _, rfl⟩ := Option.map_eq_some_iff.mp h
    rintro ⟨⟩

/-- An integer is not rounded to not a number. -/
theorem Double.ne_nan_of_ofInt? {n : Int} {x : Double} (h : ofInt? n = some x) : x ≠ .nan := by
  have hite {p : Prop} [Decidable p] {x y : Double} (hx : x ≠ .nan) (hy : y ≠ .nan) :
      (if p then x else y) ≠ .nan := by
    split
    · exact hx
    · exact hy
  have hratio (negative : Bool) (num den : Nat) : ofRatio negative num den ≠ .nan := by
    have hzero : zero negative ≠ .nan := nofun
    unfold ofRatio
    exact hite hzero (hite hzero (hite nofun nofun))
  unfold ofInt? at h
  split at h
  · cases h
  · rw [← Option.some.inj h]
    exact hratio _ _ _

/-- No JSON value is read as not a number. -/
theorem Body.ne_nan_of_readScalar {j : Json} (h : readScalar path type j = .ok v) :
    v.asNumber? ≠ some (.float .nan) := by
  cases type with
  | text | integer | boolean =>
    simp only [readScalar] at h
    split at h <;> cases h
    rintro ⟨⟩
  | number =>
    simp only [readScalar, readNumber] at h
    split at h
    · split at h
      · rename_i x hx
        cases h
        rintro ⟨⟩
        exact Double.ne_nan_of_ofInt? hx rfl
      · cases h
    · split at h
      · rename_i x hfinite
        cases h
        rintro ⟨⟩
        cases hfinite
      · cases h
    · cases h
  | uuid | date | dateTime =>
    obtain ⟨s, hs⟩ := exists_of_readText h
    obtain ⟨x, _, rfl⟩ := Option.map_eq_some_iff.mp hs
    rintro ⟨⟩

/-- What several texts are parsed to one of them is parsed to. -/
theorem ScalarParser.exists_of_mem_parseEach {p : ScalarParser} {name : String}
    {texts : List String} {vs : List Value} (h : p.parseEach C name texts = .ok vs) (hw : w ∈ vs) :
    ∃ text ∈ texts, p.parseOne C name text = .ok (some w) := by
  induction texts generalizing vs with
  | nil =>
    cases h
    cases hw
  | cons text rest ih =>
    obtain ⟨made, hmade, h⟩ := bind_eq_ok_iff.mp h
    obtain ⟨others, hothers, h⟩ := bind_eq_ok_iff.mp h
    cases h
    obtain hfirst | hrest := List.mem_append.mp hw
    · rw [Option.mem_toList.mp hfirst] at hmade
      exact ⟨text, List.mem_cons_self, hmade⟩
    · obtain ⟨other, hmem, hother⟩ := ih hothers hrest
      exact ⟨other, List.mem_cons_of_mem _ hmem, hother⟩

/-- What several JSON values are read as one of them is read as. -/
theorem Body.exists_of_mem_readItems {item : TypeInfo} {index : Nat} {items : List Json}
    {vs : List Value} (h : readItems item path constraints index (itemReaders C items) = .ok vs)
    (hw : w ∈ vs) : ∃ j ∈ items, ∃ place, read C j item place constraints = .ok w := by
  induction items generalizing index vs with
  | nil =>
    cases h
    cases hw
  | cons j rest ih =>
    rw [itemReaders, readItems] at h
    obtain ⟨v, hv, h⟩ := bind_eq_ok_iff.mp h
    obtain ⟨others, hothers, h⟩ := bind_eq_ok_iff.mp h
    cases h
    obtain rfl | hrest := List.mem_cons.mp hw
    · exact ⟨j, List.mem_cons_self, _, hv⟩
    · obtain ⟨k, hk, hread⟩ := ih hothers hrest
      exact ⟨k, List.mem_cons_of_mem _ hk, hread⟩

/-- An item that a list parser makes of texts is what it makes of one text. -/
theorem FlatParser.exists_of_mem_build {container : Container} {item : ScalarParser}
    {style : ParameterStyle} {explode : Bool} {name : String} {raw : RawValues}
    (h : (list container item style explode).build C name raw = .ok (some v))
    (hw : w ∈ v.items) : ∃ text, item.parseOne C name text = .ok (some w) := by
  unfold build at h
  split at h
  · cases h
  · obtain ⟨vs, hvs, h⟩ := bind_eq_ok_iff.mp h
    obtain ⟨held, hheld, h⟩ := bind_eq_ok_iff.mp h
    obtain rfl := Option.some.inj (Except.ok.inj h)
    rw [← Body.contain_eq_ok hheld] at hw
    obtain ⟨text, _, htext⟩ :=
      ScalarParser.exists_of_mem_parseEach hvs (Container.mem_of_mem_fill hw)
    exact ⟨text, htext⟩

/-- An item of what a JSON value is read as at an array type is what some JSON value is read as at
the item type, under the constraints of the array. -/
theorem Body.exists_of_mem_read {container : Container} {item : TypeInfo} {nullable : Bool}
    {notes : List Note} {j : Json}
    (h : read C j (.array container item nullable notes) path constraints = .ok v)
    (hw : w ∈ v.items) :
    ∃ k place, read C k item place (constraints ++ constraintsIn notes) = .ok w := by
  cases j with
  | array items =>
    rw [read_array] at h
    obtain ⟨vs, hvs, h⟩ := bind_eq_ok_iff.mp h
    rw [← contain_eq_ok h] at hw
    obtain ⟨k, _, place, hread⟩ := exists_of_mem_readItems hvs (Container.mem_of_mem_fill hw)
    exact ⟨k, place, hread⟩
  | null =>
    rw [read_null] at h
    split at h
    · cases h
      cases hw
    · cases h
  | bool b | number n | text s =>
    rw [read] at h
    · cases h
    all_goals simp
  | object members =>
    rw [read] at h
    cases h

/-- Whether a value has entered an array of a scalar type: the constraints have made it of a value
that they are for and that is not `nan`. -/
def Enters (type : Scalar) (constraints : List Constraint) (w : Value) : Prop :=
  ∃ v place, type.Takes v ∧ v.asNumber? ≠ some (.float .nan) ∧
    applyConstraints constraints v place = .ok w

/-- What a text is parsed to the constraints of the parser make of its conversion. -/
theorem ScalarParser.converted_of_parseOne {p : ScalarParser} {name text : String}
    (h : p.parseOne C name text = .ok (some w)) :
    ∃ v, Binding.convert? C p.type text = some v ∧
      applyConstraints p.constraints v name = .ok w := by
  unfold parseOne at h
  split at h
  · split at h <;> cases h
  · split at h
    · cases h
    · rename_i v hv
      obtain ⟨u, hu, heq⟩ := map_eq_ok_iff.mp h
      obtain rfl := Option.some.inj heq
      exact ⟨v, hv, hu⟩

/-- What a text is parsed to has entered under the constraints of the parser. -/
theorem ScalarParser.enters {p : ScalarParser} (htype : p.type = .scalar type)
    (htakes : Body.takesConstraints type = true) {name text : String}
    (h : p.parseOne C name text = .ok (some w)) : Enters type p.constraints w := by
  obtain ⟨v, hv, hw⟩ := p.converted_of_parseOne h
  rw [htype] at hv
  exact ⟨v, name, takes_of_parsed htakes (Binding.parsed_of_convert? hv),
    Binding.ne_nan_of_convert? hv, hw⟩

/-- What a JSON value is read as has entered under the constraints, or is null. -/
theorem Body.enters_or_null {nullable : Bool} {notes : List Note} {j : Json}
    (htakes : takesConstraints type = true)
    (h : read C j (.leaf (.scalar type) nullable notes) path constraints = .ok w) :
    (w = .null ∧ nullable = true) ∨ Enters type (constraints ++ constraintsIn notes) w := by
  by_cases hj : j = .null
  · rw [hj, read_null] at h
    split at h
    · rename_i hnullable
      cases h
      exact Or.inl ⟨rfl, hnullable⟩
    · cases h
  · rw [read_leaf hj rfl] at h
    obtain ⟨v, hv, h⟩ := bind_eq_ok_iff.mp h
    rw [if_pos htakes] at h
    exact Or.inr
      ⟨v, path, takes_of_parsed htakes (parsed_readScalar hv), ne_nan_of_readScalar hv, h⟩

/-- An item of an array of texts or numbers has entered under the constraints of the array and of
the item type, or is null. -/
theorem Field.HasItem.enters_or_null {f : Field} {container : Container}
    {nullable itemNullable : Bool} {notes itemNotes : List Note}
    (htype : f.type =
      .array container (.leaf (.scalar type) itemNullable itemNotes) nullable notes)
    (htakes : Body.takesConstraints type = true) (h : f.HasItem C w) :
    (w = .null ∧ itemNullable = true) ∨
      Enters type (f.constraints ++ constraintsIn itemNotes) w := by
  have hconstraints : f.constraints = constraintsIn notes := by
    rw [Field.constraints, htype]
    rfl
  rw [hconstraints]
  cases h with
  | parsed hp hv hw =>
    unfold Binding.flatParser? at hp
    rw [htype] at hp
    obtain rfl := Option.some.inj hp
    obtain ⟨text, htext⟩ := FlatParser.exists_of_mem_build hv hw
    exact Or.inr (ScalarParser.enters rfl htakes htext)
  | read hv hw =>
    rw [Body.readValue, htype] at hv
    obtain ⟨j, place, hread⟩ := Body.exists_of_mem_read hv hw
    exact Body.enters_or_null htakes hread

end Entering

namespace Classes

variable {C : Classes} {className : String} {shape : Shape} {f : Field} {container : Container}
  {item : TypeInfo} {nullable : Bool} {notes : List Note}

/-- Whatever a request or a body holds, the items of an array field satisfy what the schema of the
items shows, but for null where the item type allows it: all that the item type shows itself, and of
what the array shows in its place whatever no clamp of the item type moves values past. A bound that
is not a number refuses nothing, so of it an item is only never on the wrong side. -/
theorem meets_items (hshape : C.shape className = .ok shape) (hf : f ∈ shape.fields)
    (htype : f.type = .array container item nullable notes)
    (hclamps : ∀ low high, .clamp low high ∈ f.constraints ++ item.constraints →
      low.atMost high = true)
    {b after : SchemaBuilder} (hb : b.Sound) {s : Schema}
    (hrun : (SchemaBuilder.ofField C f).run b = .ok s after) :
    ∃ items, s.items = some items ∧ ∀ w, f.HasItem C w → (w = .null ∧ item.nullable = true) ∨
      ∀ key value, Table.get? key items.limits = some value →
        (Table.get? key (schemaAttributes item.constraints) = some value ∨
          ∀ c ∈ item.constraints, ¬c.MovesPast key value) →
        w.Meets key value ∧ (value ≠ .number (.float .nan) → w.Satisfies key value) := by
  have hs : C.propertyOf f = .ok s := (SchemaBuilder.Makes.ofField f hb hrun).1
  refine ⟨_, items_propertyOf htype hs, fun w hw => ?_⟩
  by_cases hnull : w = .null ∧ item.nullable = true
  · exact Or.inl hnull
  · refine Or.inr fun key value hshown hkept => ?_
    rw [get?_limits_items] at hshown
    obtain ⟨owner, hcheck⟩ := checkConstraints_of_mem hshape hf
    have hconstraints : f.type.constraints = f.constraints := rfl
    rw [hconstraints, htype] at hcheck
    obtain ⟨type, itemNullable, itemNotes, rfl, htakes, hfits⟩ :=
      exists_scalar_of_shown hcheck hshown
    have hbounds : ∀ c ∈ f.constraints ++ constraintsIn itemNotes, c.BoundsInOrder := by
      intro c hc
      cases c with
      | clamp low high => exact hclamps low high hc
      | _ => trivial
    obtain ⟨v, place, hv, hnumber, h⟩ := (hw.enters_or_null htype htakes).resolve_left hnull
    have hmeets := meets_of_layers hfits hbounds hv h hshown hkept
    exact ⟨hmeets, fun hvalue =>
      Value.satisfies_of_meets (applyConstraints_ne_nan hbounds hnumber h) hvalue hmeets⟩

/-- A record with an array of levels of at least 5 whose items are clamped between 0 and 3. -/
def tanks : Classes :=
  ({} : Classes).define
    { name := "Tanks", body := .record false,
      fields := [
        { name := "levels", default := .required,
          hint := .annotated
            (.collection .list
              (.annotated (.builtin .integer) [.constraint (.clamp (.int 0) (.int 3))]))
            [.parameter { location := .query }, .constraint (.min (.int 5) none)] }] }

/-- The level 7 is at least 5 and is then moved to 3, both from a body and from a query. The items
show the maximum 3, which it satisfies, and in place of the minimum 0 the minimum 5, which it does
not. -/
theorem meets_items_tanks :
    ∃ shape f s after items, tanks.shape "Tanks" = .ok shape ∧ f ∈ shape.fields ∧
      (SchemaBuilder.ofField tanks f).run {} = .ok s after ∧ s.items = some items ∧
      items.limits = [(.minimum, .int 5), (.maximum, .int 3)] ∧
      Body.readValue tanks f.type (.array [.int 7]) "levels" = .ok (.list [.int 3]) ∧
      (∃ p, Binding.flatParser? f .query false = some p ∧
        p.build tanks "levels" [("levels", ["7"])] = .ok (some (.list [.int 3]))) ∧
      (Value.int 3).Satisfies .maximum (.int 3) ∧ ¬(Value.int 3).Satisfies .minimum (.int 5) := by
  have hmade : ∃ shape f s after items, tanks.shape "Tanks" = .ok shape ∧ shape.fields = [f] ∧
      (SchemaBuilder.ofField tanks f).run {} = .ok s after ∧ s.items = some items ∧
      items.limits = [(.minimum, .int 5), (.maximum, .int 3)] ∧
      (∃ notes, f.type = .array .list
        (.leaf (.scalar .integer) false [.constraint (.clamp (.int 0) (.int 3))]) false notes) ∧
      f.constraints = [.min (.int 5) none] ∧
      Body.readValue tanks f.type (.array [.int 7]) "levels" = .ok (.list [.int 3]) ∧
      (∃ p, Binding.flatParser? f .query false = some p ∧
        p.build tanks "levels" [("levels", ["7"])] = .ok (some (.list [.int 3]))) :=
    ⟨_, _, _, _, _, rfl, rfl, rfl, rfl, rfl, ⟨_, rfl⟩, rfl, rfl, _, rfl, rfl⟩
  obtain ⟨shape, f, s, after, items, hshape, hfields, hrun, hitems, hlimits, ⟨notes, htype⟩,
    hconstraints, hread, hparsed⟩ := hmade
  have hf : f ∈ shape.fields := hfields ▸ List.mem_singleton_self f
  have hclamps : ∀ low high, Constraint.clamp low high ∈ f.constraints ++
      [Constraint.clamp (.int 0) (.int 3)] → low.atMost high = true := by
    rw [hconstraints]
    rintro low high hmem
    simp only [List.cons_append, List.nil_append, List.mem_cons, List.not_mem_nil, or_false,
      reduceCtorEq, Constraint.clamp.injEq, false_or] at hmem
    obtain ⟨rfl, rfl⟩ := hmem
    decide
  have hb : ({} : SchemaBuilder).Sound := ⟨rfl, List.nodup_nil⟩
  obtain ⟨_, hshown, hmeets⟩ := meets_items hshape hf htype hclamps hb hrun
  rw [hitems] at hshown
  obtain rfl := Option.some.inj hshown
  have hitem : f.HasItem tanks (.int 3) := .read hread List.mem_cons_self
  have hthree := (hmeets _ hitem).resolve_left (by rintro ⟨⟨⟩, _⟩)
  have hmaximum := hthree .maximum (.int 3) (by rw [hlimits]; rfl) (Or.inl rfl)
  refine ⟨shape, f, s, after, items, hshape, hf, hrun, hitems, hlimits, hread, hparsed,
    hmaximum.2 nofun, ?_⟩
  rintro ⟨n, hn, hless⟩
  obtain rfl := Option.some.inj hn
  exact absurd hless (by decide)

end Classes

end HttpContract
