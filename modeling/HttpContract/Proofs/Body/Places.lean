import HttpContract.Proofs.Body.Crashing
import HttpContract.Proofs.Body.InPlace

/-!
# Where a body is refused

A binding error of a reader is about one place of the body: a value that is refused itself, a member
that is missing or names no variant, or a record that its model refuses. At any path but the root,
the error names the path of this place, which is the given one with a step for each member and each
item on the way. Only models know nothing of places: what a model refuses is told under the client's
name of its field alone, or under no name.
-/

namespace HttpContract

namespace Body

/-- A step from a value to a part of it. -/
inductive PathStep where
  | member (key : String)
  | item (index : Nat)
  deriving DecidableEq, Repr

/-- A step as it stands in a path. -/
def PathStep.text : PathStep → String
  | .member key => "." ++ key
  | .item index => s!"[{index}]"

/-- Steps as they stand in a path, one after the other. -/
def trail : List PathStep → String
  | [] => ""
  | step :: rest => step.text ++ trail rest

/-- What is wrong at a place. -/
inductive Complaint where
  | missing
  | refused (why : Refusal)
  | byModel (key : Option String) (why : String)
  deriving Repr

/-- The error that tells what is wrong at a place. A model's refusal does not tell the place. -/
def Complaint.toldAt (place : String) : Complaint → BindingError
  | .missing => .missing place
  | .refused why => .refused (some place) why
  | .byModel key why => .refused key (.byModel why)

/-- What is wrong first in a JSON value that is read as a type at a path, under constraints from
outside, and the steps that lead there. -/
inductive Complains (C : Classes) :
    String → Json → TypeInfo → List Constraint → List PathStep → Complaint → Prop
  | value {path : String} {j : Json} {type : TypeInfo} {constraints : List Constraint}
      {why : Refusal}
      (hvalue : ∀ place ≠ "",
        read C j type place constraints = .error (.binding (.refused (some place) why))) :
      Complains C path j type constraints [] (.refused why)
  | model {path name : String} {members : List (String × Json)} {nullable : Bool}
      {notes : List Note} {constraints : List Constraint} {shape : Shape}
      {given : List (String × Value)} {key : Option String} {why : String}
      (hshape : C.shape name = .ok shape)
      (hread : readFields path (memberReaders C members) shape.fields = .ok given)
      (hmade : C.construct shape given = .error (.refused key (.byModel why))) :
      Complains C path (.object members) (.leaf (.record name) nullable notes) constraints []
        (.byModel key why)
  | missing {path name : String} {members : List (String × Json)} {nullable : Bool}
      {notes : List Note} {constraints : List Constraint} {shape : Shape}
      {front behind : List Field} {f : Field} {given : List (String × Value)}
      (hshape : C.shape name = .ok shape) (hfields : shape.fields = front ++ f :: behind)
      (hfront : readFields path (memberReaders C members) front = .ok given)
      (hmember : Table.get? f.wireName members = none) (hrequired : f.required = true) :
      Complains C path (.object members) (.leaf (.record name) nullable notes) constraints
        [.member f.wireName] .missing
  | unnamed {path base : String} {members : List (String × Json)} {nullable : Bool}
      {notes : List Note} {constraints : List Constraint} {h : Hierarchy}
      (hh : C.hierarchy base = .ok h)
      (htag : Table.get? h.discriminator members = none ∨
        Table.get? h.discriminator members = some .null) :
      Complains C path (.object members) (.leaf (.polymorphic base) nullable notes) constraints
        [.member h.discriminator] (.refused .noVariantNamed)
  | unknown {path base : String} {members : List (String × Json)} {nullable : Bool}
      {notes : List Note} {constraints : List Constraint} {h : Hierarchy} {tag : Json}
      (hh : C.hierarchy base = .ok h) (htag : Table.get? h.discriminator members = some tag)
      (hnull : tag ≠ .null) (hnone : ∀ name, tag = .text name → h.variant? name = none)
      (hshown : tag.isWritable = true) :
      Complains C path (.object members) (.leaf (.polymorphic base) nullable notes) constraints
        [.member h.discriminator]
        (.refused (.unknownVariant h.discriminator tag (h.variants.map (·.1))))
  | item {path : String} {front behind : List Json} {j : Json} {container : Container}
      {item : TypeInfo} {nullable : Bool} {notes : List Note} {constraints : List Constraint}
      {vs : List Value} {steps : List PathStep} {c : Complaint}
      (hfront : readItems item path (constraints ++ constraintsIn notes) 0 (itemReaders C front) =
        .ok vs)
      (hj : Complains C (itemPath path front.length) j item (constraints ++ constraintsIn notes)
        steps c) :
      Complains C path (.array (front ++ j :: behind)) (.array container item nullable notes)
        constraints (.item front.length :: steps) c
  | entry {path key : String} {front behind : List (String × Json)} {j : Json} {item : TypeInfo}
      {nullable : Bool} {notes : List Note} {constraints : List Constraint}
      {entries : List (Value × Value)} {steps : List PathStep} {c : Complaint}
      (hfront : readEntries item path (memberReaders C front) = .ok entries)
      (hj : Complains C (memberPath path key) j item [] steps c) :
      Complains C path (.object (front ++ (key, j) :: behind)) (.map item nullable notes)
        constraints (.member key :: steps) c
  | field {path name : String} {members : List (String × Json)} {nullable : Bool}
      {notes : List Note} {constraints : List Constraint} {shape : Shape}
      {front behind : List Field} {f : Field} {given : List (String × Value)} {j : Json}
      {steps : List PathStep} {c : Complaint}
      (hshape : C.shape name = .ok shape) (hfields : shape.fields = front ++ f :: behind)
      (hfront : readFields path (memberReaders C members) front = .ok given)
      (hmember : Table.get? f.wireName members = some j)
      (hj : Complains C (memberPath path f.wireName) j f.type [] steps c) :
      Complains C path (.object members) (.leaf (.record name) nullable notes) constraints
        (.member f.wireName :: steps) c
  | variant {path base tag name : String} {members : List (String × Json)} {nullable : Bool}
      {notes : List Note} {constraints : List Constraint} {h : Hierarchy} {steps : List PathStep}
      {c : Complaint}
      (hh : C.hierarchy base = .ok h)
      (htag : Table.get? h.discriminator members = some (.text tag))
      (hname : h.variant? tag = some name)
      (hrecord : Complains C path (.object members) (.leaf (.record name) false []) [] steps c) :
      Complains C path (.object members) (.leaf (.polymorphic base) nullable notes) constraints
        steps c

section Paths

variable {path : String}

/-- No steps lead away from a path. -/
theorem append_trail_nil (path : String) : path ++ trail [] = path := String.append_empty

/-- The steps from an item follow the step to it. -/
theorem itemPath_trail (path : String) (index : Nat) (steps : List PathStep) :
    itemPath path index ++ trail steps = path ++ trail (.item index :: steps) := by
  change path ++ "[" ++ toString index ++ "]" ++ trail steps =
    path ++ ("[" ++ toString index ++ "]" ++ trail steps)
  simp only [String.append_assoc]

/-- Below the root the steps from a member follow the step to it. -/
theorem memberPath_trail (hpath : path ≠ "") (key : String) (steps : List PathStep) :
    memberPath path key ++ trail steps = path ++ trail (.member key :: steps) := by
  rw [memberPath, if_neg fun h => hpath (String.isEmpty_iff.mp h), trail, PathStep.text]
  simp only [String.append_assoc]

/-- Below the root the path of a member is extended by a single step. -/
theorem memberPath_eq (hpath : path ≠ "") (key : String) :
    memberPath path key = path ++ trail [.member key] := by
  rw [← memberPath_trail hpath, append_trail_nil]

/-- The path of an item is below the root. -/
theorem itemPath_ne (path : String) (index : Nat) : itemPath path index ≠ "" := by
  change path ++ "[" ++ toString index ++ "]" ≠ ""
  intro h
  rw [← String.toList_inj] at h
  simp at h

/-- The path of a member is below the root where the object is. -/
theorem memberPath_ne (hpath : path ≠ "") (key : String) : memberPath path key ≠ "" := by
  rw [memberPath, if_neg fun h => hpath (String.isEmpty_iff.mp h)]
  intro h
  rw [← String.toList_inj] at h
  simp at h

end Paths

variable {C : Classes} {path : String} {constraints : List Constraint} {e : BindingError}

/-- What is wrong in a value is told by its reader, at the place where the steps lead. -/
theorem Complains.read_eq {j : Json} {type : TypeInfo} {steps : List PathStep} {c : Complaint}
    (h : Complains C path j type constraints steps c) (hpath : path ≠ "") :
    read C j type path constraints = .error (.binding (c.toldAt (path ++ trail steps))) := by
  induction h with
  | value hvalue =>
    rw [append_trail_nil]
    exact hvalue _ hpath
  | model hshape hread hmade =>
    rw [read_record, hshape]
    refine (bind_eq_of_ok rfl).trans ?_
    rw [readRecord, hread]
    exact hmade
  | missing hshape hfields hfront hmember hrequired =>
    rw [read_record, hshape, ← memberPath_eq hpath]
    refine (bind_eq_of_ok rfl).trans (bind_eq_error_iff.mpr (Or.inl ?_))
    rw [hfields]
    exact readFields_eq_error_iff.mpr
      ⟨_, _, _, _, rfl, hfront, by rw [hmember]; exact ⟨hrequired, rfl⟩⟩
  | unnamed hh htag =>
    rw [read_polymorphic, readVariant, hh, ← memberPath_eq hpath]
    refine (bind_eq_of_ok rfl).trans ?_
    rcases htag with htag | htag <;> rw [htag] <;> rfl
  | @unknown path base members nullable notes constraints h tag hh htag hnull hnone hshown =>
    have hrefused (label : String) (names : List String) :
        Failure.refused (some label) (.unknownVariant h.discriminator tag names) =
          .binding (.refused (some label) (.unknownVariant h.discriminator tag names)) :=
      Failure.refused_eq_binding_iff.mpr ⟨hshown, rfl⟩
    rw [read_polymorphic, readVariant, hh, ← memberPath_eq hpath]
    refine (bind_eq_of_ok rfl).trans ?_
    rw [htag]
    cases tag with
    | null => exact absurd rfl hnull
    | text name =>
      dsimp only
      rw [hnone name rfl]
      rfl
    | bool b | number n | array items | object members =>
      exact congrArg Except.error (hrefused _ _)
  | item hfront _ ih =>
    rw [← itemPath_trail, read_array]
    refine bind_eq_error_iff.mpr (Or.inl (readItems_eq_error_iff.mpr ?_))
    refine ⟨_, _, _, _, rfl, hfront, ?_⟩
    rw [Nat.zero_add]
    exact ih (itemPath_ne _ _)
  | entry hfront _ ih =>
    rw [← memberPath_trail hpath, read_map, map_eq_error_iff, readEntries_eq_error_iff]
    exact ⟨_, _, _, _, _, rfl, hfront, ih (memberPath_ne hpath _)⟩
  | field hshape hfields hfront hmember _ ih =>
    rw [← memberPath_trail hpath, read_record, hshape]
    refine (bind_eq_of_ok rfl).trans (bind_eq_error_iff.mpr (Or.inl ?_))
    rw [hfields]
    refine readFields_eq_error_iff.mpr ⟨_, _, _, _, rfl, hfront, ?_⟩
    rw [hmember]
    exact ih (memberPath_ne hpath _)
  | variant hh htag hname _ ih =>
    rw [read_polymorphic, readVariant, hh]
    refine (bind_eq_of_ok rfl).trans ?_
    rw [htag]
    dsimp only
    rw [hname]
    exact ih hpath

/-- Whether all binding errors of a reader below the root tell what is wrong first in the value. -/
def ComplainsWhereRefused (C : Classes) (j : Json) : Prop :=
  ∀ ⦃path : String⦄ ⦃constraints : List Constraint⦄ ⦃type : TypeInfo⦄ ⦃e : BindingError⦄,
    path ≠ "" → read C j type path constraints = .error (.binding e) →
      ∃ steps c, Complains C path j type constraints steps c ∧ c.toldAt (path ++ trail steps) = e

/-- A value that is read alike at every path is refused itself. -/
theorem complains_of_inPlace {j : Json} {type : TypeInfo} (hpath : path ≠ "")
    (hplace : InPlace fun path => read C j type path constraints)
    (h : read C j type path constraints = .error (.binding e)) :
    ∃ steps c, Complains C path j type constraints steps c ∧
      c.toldAt (path ++ trail steps) = e := by
  obtain ⟨why, rfl, hvalue⟩ := hplace.exists_refusal hpath h
  exact ⟨[], .refused why, .value hvalue, by rw [append_trail_nil]; rfl⟩

/-- That a container cannot hold items is a fault. -/
theorem contain_eq_error {container : Container} {items : List Value} {failure : Failure}
    (h : contain C container items = .error failure) : ∃ fault, failure = .fault fault := by
  cases container with
  | list | tuple => cases h
  | set | frozenset =>
    simp only [contain] at h
    split at h
    · exact ⟨_, (Except.error.inj h).symm⟩
    · cases h

/-- An array is refused itself, or in the first of its items that is refused. -/
theorem complains_of_array {items : List Json} {type : TypeInfo} (hpath : path ≠ "")
    (ih : ∀ j ∈ items, ComplainsWhereRefused C j)
    (h : read C (.array items) type path constraints = .error (.binding e)) :
    ∃ steps c, Complains C path (.array items) type constraints steps c ∧
      c.toldAt (path ++ trail steps) = e := by
  cases type with
  | array container item nullable notes =>
    rw [read_array] at h
    rcases bind_eq_error_iff.mp h with h | ⟨vs, _, h⟩
    · obtain ⟨front, j, behind, vs, rfl, hfront, hj⟩ := readItems_eq_error_iff.mp h
      rw [Nat.zero_add] at hj
      obtain ⟨steps, c, hc, rfl⟩ := ih j (by simp) (itemPath_ne path _) hj
      exact ⟨_, c, .item hfront hc, by rw [itemPath_trail]⟩
    · obtain ⟨fault, hfault⟩ := contain_eq_error h
      cases hfault
  | map item nullable notes => exact complains_of_inPlace hpath (inPlace_mismatch .object _) h
  | leaf form nullable notes => exact complains_of_inPlace hpath (inPlace_readLeaf C form _ _) h

/-- An object is refused as a record in the first of its fields that is refused or missing, or as a
whole by its model. -/
theorem complains_of_record {members : List (String × Json)} {name : String} {nullable : Bool}
    {notes : List Note} (hpath : path ≠ "") (ih : ∀ m ∈ members, ComplainsWhereRefused C m.2)
    (h : read C (.object members) (.leaf (.record name) nullable notes) path constraints =
      .error (.binding e)) :
    ∃ steps c, Complains C path (.object members) (.leaf (.record name) nullable notes) constraints
      steps c ∧ c.toldAt (path ++ trail steps) = e := by
  rw [read_record] at h
  rcases bind_eq_error_iff.mp h with h | ⟨shape, hshape, h⟩
  · exact absurd h configured_ne_binding
  · have hshape : C.shape name = .ok shape := mapError_eq_ok_iff.mp hshape
    rcases bind_eq_error_iff.mp h with h | ⟨given, hread, h⟩
    · obtain ⟨front, f, behind, given, hfields, hfront, hf⟩ := readFields_eq_error_iff.mp h
      split at hf
      · rename_i j hmember
        obtain ⟨steps, c, hc, rfl⟩ :=
          ih _ (Table.mem_of_get? hmember) (memberPath_ne hpath _) hf
        exact ⟨_, c, .field hshape hfields hfront hmember hc, by rw [memberPath_trail hpath]⟩
      · rename_i hmember
        obtain ⟨hrequired, he⟩ := hf
        cases he
        exact ⟨_, .missing, .missing hshape hfields hfront hmember hrequired,
          by rw [← memberPath_eq hpath]; rfl⟩
    · rcases Classes.construct_eq_error h with ⟨fault, hfault⟩ | ⟨key, why, hrefused⟩
      · cases hfault
      · cases hrefused
        exact ⟨[], .byModel key why, .model hshape hread h, rfl⟩

/-- An object is refused as a variant when it names none, or else as the record that it names. -/
theorem complains_of_polymorphic {members : List (String × Json)} {base : String} {nullable : Bool}
    {notes : List Note} (hpath : path ≠ "") (ih : ∀ m ∈ members, ComplainsWhereRefused C m.2)
    (h : read C (.object members) (.leaf (.polymorphic base) nullable notes) path constraints =
      .error (.binding e)) :
    ∃ steps c, Complains C path (.object members) (.leaf (.polymorphic base) nullable notes)
      constraints steps c ∧ c.toldAt (path ++ trail steps) = e := by
  rw [read_polymorphic, readVariant] at h
  rcases bind_eq_error_iff.mp h with h | ⟨hierarchy, hh, h⟩
  · exact absurd h configured_ne_binding
  · have hh : C.hierarchy base = .ok hierarchy := mapError_eq_ok_iff.mp hh
    dsimp only at h
    split at h
    · rename_i htag
      cases h
      exact ⟨_, .refused .noVariantNamed, .unnamed hh (Or.inl htag),
        by rw [← memberPath_eq hpath]; rfl⟩
    · rename_i htag
      cases h
      exact ⟨_, .refused .noVariantNamed, .unnamed hh (Or.inr htag),
        by rw [← memberPath_eq hpath]; rfl⟩
    · rename_i tag hnull htag
      cases tag with
      | null => exact absurd rfl hnull
      | text name =>
        dsimp only at h
        cases hname : hierarchy.variant? name with
        | none =>
          rw [hname] at h
          cases h
          have hnone : ∀ other, Json.text name = .text other → hierarchy.variant? other = none := by
            rintro _ ⟨⟩
            exact hname
          exact ⟨_, _, .unknown hh htag hnull hnone rfl, by rw [← memberPath_eq hpath]; rfl⟩
        | some className =>
          rw [hname] at h
          have hrecord : read C (.object members) (.leaf (.record className) false []) path [] =
              .error (.binding e) := h
          obtain ⟨steps, c, hc, he⟩ := complains_of_record hpath ih hrecord
          exact ⟨steps, c, .variant hh htag hname hc, he⟩
      | bool b | number n | array items | object others =>
        obtain ⟨hshown, rfl⟩ := Failure.refused_eq_binding_iff.mp (Except.error.inj h)
        exact ⟨_, _, .unknown hh htag hnull (by simp) hshown, by rw [← memberPath_eq hpath]; rfl⟩

/-- An object is refused itself, or in one of its members. -/
theorem complains_of_object {members : List (String × Json)} {type : TypeInfo} (hpath : path ≠ "")
    (ih : ∀ m ∈ members, ComplainsWhereRefused C m.2)
    (h : read C (.object members) type path constraints = .error (.binding e)) :
    ∃ steps c, Complains C path (.object members) type constraints steps c ∧
      c.toldAt (path ++ trail steps) = e := by
  cases type with
  | array container item nullable notes =>
    exact complains_of_inPlace hpath (inPlace_mismatch .array _) h
  | map item nullable notes =>
    rw [read_map, map_eq_error_iff] at h
    obtain ⟨front, key, j, behind, entries, rfl, hfront, hj⟩ := readEntries_eq_error_iff.mp h
    obtain ⟨steps, c, hc, rfl⟩ := ih (key, j) (by simp) (memberPath_ne hpath key) hj
    exact ⟨_, c, .entry hfront hc, by rw [memberPath_trail hpath]⟩
  | leaf form nullable notes =>
    have hnull : Json.object members ≠ .null := by simp
    have hleaf (hform : form.isObject = false) : InPlace fun path =>
        read C (.object members) (.leaf form nullable notes) path constraints := by
      simp only [read_leaf hnull hform]
      exact inPlace_readLeaf C form _ _
    cases form with
    | record name => exact complains_of_record hpath ih h
    | polymorphic base => exact complains_of_polymorphic hpath ih h
    | scalar type | enumeration name | any => exact complains_of_inPlace hpath (hleaf rfl) h

/-- Whatever binding error a reader fails with below the root, it tells what is wrong first. -/
theorem complainsWhereRefused (C : Classes) (j : Json) : ComplainsWhereRefused C j := by
  -- Each reader goes down by one part of the value, a variant staying at the same object.
  induction j using Json.induction with
  | array items ih => exact fun _ _ _ _ hpath h => complains_of_array hpath ih h
  | object members ih => exact fun _ _ _ _ hpath h => complains_of_object hpath ih h
  | other j harray hobject =>
    intro path constraints type e hpath h
    cases j with
    | array items => exact absurd rfl (harray items)
    | object members => exact absurd rfl (hobject members)
    | null =>
      have hnull : InPlace fun path => read C .null type path constraints :=
        .ite (.ok _) (.refused _ fun path hpath => by rw [place_of_ne hpath])
      exact complains_of_inPlace hpath hnull h
    | bool b | number n | text s =>
      cases type with
      | array container item nullable notes | map item nullable notes =>
        exact complains_of_inPlace hpath (inPlace_mismatch _ _) h
      | leaf form nullable notes => exact complains_of_inPlace hpath (inPlace_readLeaf C form _ _) h

/-- Below the root, binding errors tell the full path. Reading any JSON value as any type, at any
path but the empty one, fails with a binding error exactly when this tells what is wrong first in
the value: at the path extended by the steps that lead to the value, the member or the record which
the error is about. So its place is this extended path; only a refusal that comes from a model has
the client's name for one of the model's fields instead, without a path, or none. -/
theorem readValue_refused_iff {j : Json} {type : TypeInfo} (hpath : path ≠ "") :
    (readValue C type j path = .error (.binding e) ↔ ∃ steps c,
        Complains C path j type [] steps c ∧ c.toldAt (path ++ trail steps) = e) ∧
      (readValue C type j path = .error (.binding e) →
        (∃ steps, e.field = some (path ++ trail steps)) ∨
          ∃ steps key why, Complains C path j type [] steps (.byModel key why) ∧
            e = .refused key (.byModel why)) := by
  have htold {e : BindingError} (h : readValue C type j path = .error (.binding e)) :
      ∃ steps c, Complains C path j type [] steps c ∧ c.toldAt (path ++ trail steps) = e :=
    complainsWhereRefused C j hpath h
  refine ⟨⟨htold, ?_⟩, fun h => ?_⟩
  · rintro ⟨steps, c, hc, rfl⟩
    exact hc.read_eq hpath
  · obtain ⟨steps, c, hc, rfl⟩ := htold h
    cases c with
    | missing | refused why => exact Or.inl ⟨steps, rfl⟩
    | byModel key why => exact Or.inr ⟨steps, key, why, hc, rfl⟩

end Body

/-- Orders with lines, which are models that check how much is ordered. -/
def Classes.orders : Classes :=
  (({} : Classes).define
    { name := "Line", body := .model false [⟨"quantity", .int 1, "too few"⟩],
      fields := [
        { name := "sku", default := .required, hint := .builtin .text },
        { name := "quantity", default := .required, hint := .builtin .integer }] }).define
    { name := "Order", body := .record false,
      fields := [
        { name := "lines", default := .required, hint := .collection .list (.named "Line") }] }

/-- A line without its text is told with the full path; a number that the model refuses is not. -/
theorem Body.readValue_refused_iff_orders :
    let type : TypeInfo := .leaf (.record "Order") false []
    let order (line : List (String × Json)) : Json := .object [("lines", .array [.object line])]
    let bare := order [("quantity", .number (.int 2))]
    let few := order [("sku", .text "A"), ("quantity", .number (.int 0))]
    (∃ steps c, Complains Classes.orders "order" bare type [] steps c ∧
      c.toldAt ("order" ++ trail steps) = .missing "order.lines[0].sku") ∧
      readValue Classes.orders type few "order" =
        .error (.binding (.refused (some "quantity") (.byModel "Value error, too few"))) ∧
      ∃ steps key why, Complains Classes.orders "order" few type [] steps (.byModel key why) := by
  intro type order bare few
  have hmissing : readValue Classes.orders type bare "order" =
      .error (.binding (.missing "order.lines[0].sku")) := rfl
  have hrefused : readValue Classes.orders type few "order" =
      .error (.binding (.refused (some "quantity") (.byModel "Value error, too few"))) := rfl
  refine ⟨(readValue_refused_iff (by decide)).1.mp hmissing, hrefused, ?_⟩
  rcases (readValue_refused_iff (by decide)).2 hrefused with
    ⟨steps, hplace⟩ | ⟨steps, key, why, hmodel, _⟩
  · have hfront := congrArg String.toList (Option.some.inj hplace)
    rw [String.toList_append] at hfront
    cases (List.cons.inj hfront).1
  · exact ⟨steps, key, why, hmodel⟩

end HttpContract
