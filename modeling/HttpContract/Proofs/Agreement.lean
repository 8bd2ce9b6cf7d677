import HttpContract.Proofs.Binding
import HttpContract.Proofs.Decimal

/-!
# Parameters and bodies agree

The fields of a record may come as texts of a query or as the members of an object. Written as texts
in the canonical way, values are bound to just the record that the object is read as, and refused
where the object is.
-/

namespace HttpContract

/-- The JSON values that stand for values of a scalar type other than a double: a text, a truth
value, or an integer within the limit. -/
inductive Scalar.Written : Scalar → Json → Prop
  | text (s : String) : Written .text (.text s)
  | integer {n : Int} (hlimit : n.natAbs < Nat.pow 10 Number.digitLimit) :
      Written .integer (.number (.int n))
  | boolean (b : Bool) : Written .boolean (.bool b)
  | uuid (s : String) : Written .uuid (.text s)
  | date (s : String) : Written .date (.text s)
  | dateTime (s : String) : Written .dateTime (.text s)

/-- The JSON values that stand for values of a scalar type or of an array of scalars: arrays have at
least one item, and nothing is null. -/
inductive TypeInfo.Written : TypeInfo → Json → Prop
  | scalar {type : Scalar} {nullable : Bool} {notes : List Note} {j : Json}
      (hj : type.Written j) : Written (.leaf (.scalar type) nullable notes) j
  | array {container : Container} {type : Scalar} {nullable itemNullable : Bool}
      {notes itemNotes : List Note} {items : List Json} (hsome : items ≠ [])
      (hitems : ∀ j ∈ items, type.Written j) :
      Written (.array container (.leaf (.scalar type) itemNullable itemNotes) nullable notes)
        (.array items)

/-- Whether a type is that of a scalar other than a double, or of an array of those. -/
def TypeInfo.IsExact : TypeInfo → Prop
  | .leaf (.scalar type) _ _ | .array _ (.leaf (.scalar type) _ _) _ _ => type ≠ .number
  | _ => False

/-- Whether a field of such a type is read from the query, and no empty text stands for no value. -/
def Field.FromQuery (f : Field) : Prop :=
  f.type.IsExact ∧
    ∃ note, f.parameter = some note ∧ note.location = .query ∧ note.allowEmpty = false

namespace Binding

/-- The text that a JSON value without parts is written as in a query. -/
def canonicalText : Json → String
  | .text s => s
  | .number (.int n) => toString n
  | .bool b => if b then "true" else "false"
  | _ => ""

/-- The texts that a JSON value is written as in a query: one for each item of an array. -/
def canonicalTexts : Json → List String
  | .array items => items.map canonicalText
  | j => [canonicalText j]

/-- The query that offers the members of an object under their keys. -/
def canonicalQuery (members : List (String × Json)) : RawValues :=
  members.map fun m => (m.1, canonicalTexts m.2)

variable {C : Classes}

/-- Of the scalar types that of texts alone takes the empty text. -/
theorem convert?_empty {type : Scalar} (htype : type ≠ .text) :
    convert? C (.scalar type) "" = none := by
  cases type with
  | text => exact absurd rfl htype
  | integer | number | boolean | uuid => rfl
  | date => simp [convert?, Date.parse?]
  | dateTime => simp [convert?, DateTime.parse?, DateTime.dateWidth?]

/-- The canonical text of a JSON value is converted to what the JSON value is read as. -/
theorem convert?_canonicalText (path : String) {type : Scalar} {j : Json} (hj : type.Written j)
    (v : Value) :
    convert? C (.scalar type) (canonicalText j) = some v ↔ Body.readScalar path type j = .ok v := by
  cases hj with
  | text s =>
    rw [canonicalText, convert?, Body.readScalar, Option.some_inj, Except.ok.injEq]
  | integer hlimit =>
    rw [canonicalText, convert?, integer?_toString hlimit, Body.readScalar, Option.map_some,
      Option.some_inj, Except.ok.injEq, Value.int]
  | boolean b =>
    have hword : boolean? (canonicalText (.bool b)) = some b := by
      cases b <;> rfl
    rw [convert?, hword, Body.readScalar, Option.map_some, Option.some_inj, Except.ok.injEq]
  | uuid s | date s | dateTime s =>
    rw [canonicalText, convert?, Body.readScalar, Body.readText]
    split
    · rename_i w hw
      rw [hw, Option.some_inj, Except.ok.injEq]
    · rename_i hnone
      simp [hnone, Body.unreadableAs]

end Binding

namespace ScalarParser

variable {C : Classes} {p : ScalarParser} {type : Scalar}

/-- A sound parser of a type that takes no constraints has none. -/
theorem Sound.constraints_eq_nil (hp : p.Sound) (htype : p.type = .scalar type)
    (htakes : Body.takesConstraints type = false) : p.constraints = [] := by
  obtain ⟨parsed, hparsed, hfits⟩ := hp
  rw [htype] at hparsed
  rw [List.eq_nil_iff_forall_not_mem]
  intro c hc
  have hadmits : c.admits parsed = true := (hfits c hc).1
  cases parsed with
  | array container item nullable notes | map item nullable notes => cases hparsed
  | leaf form nullable notes =>
    cases form with
    | record name | polymorphic base | any | enumeration name => cases hparsed
    | scalar other =>
      cases hparsed
      cases type with
      | text | integer | number => cases htakes
      | boolean | uuid | date | dateTime => cases hadmits

/-- A parser that takes no empty texts makes of a canonical text just what the JSON value is read
as. -/
theorem concur_parseOne (hp : p.Sound) (htype : p.type = .scalar type)
    (hempty : p.allowEmpty = false) {j : Json} (hj : type.Written j) (name path : String) :
    Concur (p.parseOne C name (Binding.canonicalText j))
      ((Body.readLeaf C (.scalar type) p.constraints path j).map some) := by
  have hconvert := Binding.convert?_canonicalText (C := C) path hj
  rw [parseOne, Body.readLeaf]
  cases hv : Binding.convert? C p.type (Binding.canonicalText j) with
  | none =>
    have hnone : ∀ v, Body.readScalar path type j ≠ .ok v := by
      intro v hread
      rw [htype, (hconvert v).mpr hread] at hv
      cases hv
    have hrefused : ∃ e, Body.readScalar path type j = .error e := by
      cases hread : Body.readScalar path type j with
      | error e => exact ⟨e, rfl⟩
      | ok v => exact absurd hread (hnone v)
    obtain ⟨e, he⟩ := hrefused
    rw [he]
    split
    · rw [hempty]
      exact .errors _ _
    · exact .errors _ _
  | some v =>
    have hread : Body.readScalar path type j = .ok v := (hconvert v).mp (htype ▸ hv)
    have hfull : ((Binding.canonicalText j).isEmpty && p.type != .scalar .text) = false := by
      by_contra hfull
      simp only [Bool.not_eq_false, Bool.and_eq_true, String.isEmpty_iff, bne_iff_ne] at hfull
      obtain ⟨htext, hother⟩ := hfull
      have htype' : type ≠ .text := by
        rintro rfl
        exact hother htype
      rw [htext, htype, Binding.convert?_empty htype'] at hv
      cases hv
    rw [hread, if_neg (by simp [hfull])]
    refine Concur.map (fun w => ?_) some
    simp only [bind, Except.bind]
    cases htakes : Body.takesConstraints type with
    | true => exact ⟨fun h => applyConstraints_place h path, fun h => applyConstraints_place h name⟩
    | false =>
      rw [hp.constraints_eq_nil htype htakes]
      exact Iff.rfl

/-- Canonical texts of items are parsed as what the items are read as. -/
theorem concur_parseEach (hp : p.Sound) (htype : p.type = .scalar type)
    (hempty : p.allowEmpty = false) {nullable : Bool} {notes : List Note}
    {constraints : List Constraint}
    (hconstraints : p.constraints = constraints ++ constraintsIn notes)
    {items : List Json} (hitems : ∀ j ∈ items, type.Written j) (name path : String) (index : Nat) :
    Concur (p.parseEach C name (items.map Binding.canonicalText))
      (Body.readItems (.leaf (.scalar type) nullable notes) path constraints index
        (Body.itemReaders C items)) := by
  induction items generalizing index with
  | nil => exact .refl _
  | cons j rest ih =>
    have hj : type.Written j := hitems j List.mem_cons_self
    have hnull : j ≠ .null := by
      rintro rfl
      cases hj
    rw [List.map_cons, parseEach, Body.itemReaders, Body.readItems, Body.read_leaf hnull rfl,
      ← hconstraints]
    intro vs
    have hfirst := concur_parseOne (C := C) hp htype hempty hj name (Body.itemPath path index)
    have hrest := ih (fun k hk => hitems k (List.mem_cons_of_mem _ hk)) (index + 1)
    constructor
    · intro h
      obtain ⟨made, hmade, h⟩ := bind_eq_ok_iff.mp h
      obtain ⟨others, hothers, h⟩ := bind_eq_ok_iff.mp h
      obtain ⟨v, hv, rfl⟩ := map_eq_ok_iff.mp ((hfirst made).mp hmade)
      exact bind_eq_ok_iff.mpr ⟨v, hv, bind_eq_ok_iff.mpr ⟨others, (hrest others).mp hothers, h⟩⟩
    · intro h
      obtain ⟨v, hv, h⟩ := bind_eq_ok_iff.mp h
      obtain ⟨others, hothers, h⟩ := bind_eq_ok_iff.mp h
      have hmade := (hfirst (some v)).mpr (map_eq_ok_iff.mpr ⟨v, hv, rfl⟩)
      exact bind_eq_ok_iff.mpr
        ⟨some v, hmade, bind_eq_ok_iff.mpr ⟨others, (hrest others).mpr hothers, h⟩⟩

end ScalarParser

namespace FlatParser

variable {C : Classes}

/-- A parser of a field that is read from the query makes of canonical texts just what the JSON
value is read as. -/
theorem concur_build {f : Field} {p : FlatParser} (hp : p.item.Sound)
    (hparser : Binding.flatParser? f .query false = some p) {j : Json} (hj : f.type.Written j)
    {raw : RawValues} (hraw : raw.get? f.wireName = some (Binding.canonicalTexts j))
    (path : String) :
    Concur (p.build C f.wireName raw) ((Body.read C j f.type path []).map some) := by
  unfold Binding.flatParser? at hparser
  dsimp only [Binding.styleAt] at hparser
  cases htype : f.type with
  | map item nullable notes =>
    rw [htype] at hj
    cases hj
  | leaf form nullable notes =>
    rw [htype] at hj hparser
    cases hj with
    | @scalar type _ _ _ hj =>
      obtain ⟨_, hscalar, rfl⟩ := Option.map_eq_some_iff.mp hparser
      cases hscalar
      have hnull : j ≠ .null := by
        rintro rfl
        cases hj
      have htexts : Binding.canonicalTexts j = [Binding.canonicalText j] := by
        cases hj <;> rfl
      have hconstraints : f.constraints = constraintsIn notes := by
        rw [Field.constraints, htype, TypeInfo.constraints, TypeInfo.notes]
      rw [build, hraw, htexts, Body.read_leaf hnull rfl, List.nil_append, ← hconstraints]
      exact ScalarParser.concur_parseOne hp rfl rfl hj f.wireName path
  | array container item nullable notes =>
    rw [htype] at hj hparser
    cases hj with
    | @array _ type _ itemNullable _ itemNotes items hsome hitems =>
      obtain ⟨_, hscalar, rfl⟩ := Option.map_eq_some_iff.mp hparser
      cases hscalar
      rw [build, hraw, Binding.canonicalTexts, Body.read_array, List.nil_append]
      dsimp only [itemsOf]
      have hread : (Body.readItems (.leaf (.scalar type) itemNullable itemNotes) path
          (constraintsIn notes) 0 (Body.itemReaders C items) >>=
            Body.contain C container).map some =
          Body.readItems (.leaf (.scalar type) itemNullable itemNotes) path (constraintsIn notes) 0
            (Body.itemReaders C items) >>= fun vs => (Body.contain C container vs).map some := by
        cases Body.readItems (.leaf (.scalar type) itemNullable itemNotes) path
          (constraintsIn notes) 0 (Body.itemReaders C items) <;> rfl
      rw [hread]
      refine Concur.bind
        (ScalarParser.concur_parseEach hp rfl rfl rfl hitems f.wireName path 0) fun vs => ?_
      cases Body.contain C container vs <;> exact .refl _

end FlatParser

/-- That a field is missing is told alike whatever it is called. -/
theorem Field.concur_absent (f : Field) (label other : String) :
    Concur (f.absent label) (f.absent other) := by
  unfold absent
  split
  · exact .refl _
  · split
    · exact .refl _
    · exact .errors _ _

/-- What several things give concurs when what each of them gives does. -/
theorem concur_gather {α : Type} {part other : α → Except Failure (List (String × Value))}
    {xs : List α} (h : ∀ x ∈ xs, Concur (part x) (other x)) :
    Concur (gather part xs) (gather other xs) := by
  induction xs with
  | nil => exact .refl _
  | cons x rest ih =>
    have hrest := ih fun y hy => h y (List.mem_cons_of_mem _ hy)
    exact (h x List.mem_cons_self).bind fun own => hrest.map (own ++ ·)

/-- What is gathered for changed things is gathered for what they are changed to. -/
theorem gather_map {α β : Type} (part : β → Except Failure (List (String × Value))) (f : α → β)
    (xs : List α) : gather part (xs.map f) = gather (fun x => part (f x)) xs := by
  induction xs with
  | nil => rfl
  | cons x rest ih => rw [List.map_cons, gather, gather, ih]

namespace Binding

variable {C : Classes}

/-- Every JSON value that stands for a value of a type has a text. -/
theorem canonicalTexts_ne_nil {type : TypeInfo} {j : Json} (hj : type.Written j) :
    canonicalTexts j ≠ [] := by
  cases hj with
  | scalar hj => cases hj <;> simp [canonicalTexts]
  | array hsome hitems => simpa [canonicalTexts] using hsome

/-- The query offers the texts of a member under its key. -/
theorem get?_canonicalQuery {members : List (String × Json)} {key : String} {j : Json}
    (hmember : Table.get? key members = some j) (hsome : canonicalTexts j ≠ []) :
    (canonicalQuery members).get? key = some (canonicalTexts j) := by
  rw [RawValues.get?, canonicalQuery, Table.get?_map, hmember, Option.map_some]
  cases htexts : canonicalTexts j with
  | nil => exact absurd htexts hsome
  | cons text rest => rfl

/-- The query offers nothing under other keys. -/
theorem get?_canonicalQuery_none {members : List (String × Json)} {key : String}
    (hmember : Table.get? key members = none) : (canonicalQuery members).get? key = none := by
  rw [RawValues.get?, canonicalQuery, Table.get?_map, hmember, Option.map_none]

/-- What a bound field makes of the canonical query of an object. -/
def buildFrom (C : Classes) (members : List (String × Json)) (bound : BoundField ParameterParser) :
    Except Failure (Option Value) :=
  let request : RawRequest := { query := canonicalQuery members }
  bound.parser.build C bound.key (request.at? bound.location)

/-- A field of the query is bound to just what its member is read as. -/
theorem concur_collectField {f : Field} {p : FlatParser} (hp : p.item.Sound)
    (hparser : flatParser? f .query false = some p) {members : List (String × Json)}
    (hmember : ∀ j, Table.get? f.wireName members = some j → f.type.Written j) (path : String) :
    Concur (collectField (buildFrom C members) ⟨f, ParameterParser.flat p, .query, f.wireName⟩)
      (Body.readField path (Body.memberReaders C members) f) := by
  rw [collectField, Body.readField, Body.get?_memberReaders]
  dsimp only [buildFrom, ParameterParser.build, RawRequest.at?]
  cases hj : Table.get? f.wireName members with
  | none =>
    rw [FlatParser.build, get?_canonicalQuery_none hj]
    exact f.concur_absent _ _
  | some j =>
    have hwritten : f.type.Written j := hmember j hj
    have hbuild := FlatParser.concur_build (C := C) hp hparser hwritten
      (get?_canonicalQuery hj (canonicalTexts_ne_nil hwritten)) (Body.memberPath path f.wireName)
    intro own
    rw [Option.map_some]
    dsimp only
    rw [bind_eq_ok_iff, map_eq_ok_iff]
    constructor
    · rintro ⟨made, hmade, h⟩
      obtain ⟨v, hv, rfl⟩ := map_eq_ok_iff.mp ((hbuild made).mp hmade)
      exact ⟨v, hv, Except.ok.inj h⟩
    · rintro ⟨v, hv, rfl⟩
      exact ⟨some v, (hbuild (some v)).mpr (map_eq_ok_iff.mpr ⟨v, hv, rfl⟩), rfl⟩

end Binding

namespace Classes

variable {C : Classes} {className : String} {shape : Shape}

/-- A field that is read from the query has a parser of its own there. -/
theorem exists_boundField (className : String) {f : Field} (hf : f.FromQuery) :
    ∃ p, Binding.flatParser? f .query false = some p ∧
      C.boundField className f = .ok ⟨f, .flat p, .query, f.wireName⟩ := by
  obtain ⟨hexact, note, hnote, hlocation, hempty⟩ := hf
  have hparser : ∃ p, Binding.flatParser? f .query false = some p := by
    unfold Binding.flatParser?
    dsimp only [Binding.styleAt]
    cases htype : f.type with
    | map item nullable notes =>
      rw [htype] at hexact
      cases hexact
    | leaf form nullable notes =>
      rw [htype] at hexact
      cases form with
      | scalar type => exact ⟨_, rfl⟩
      | enumeration name | record name | polymorphic base | any => cases hexact
    | array container item nullable notes =>
      rw [htype] at hexact
      cases item with
      | array _ _ _ _ | map _ _ _ => cases hexact
      | leaf form _ _ =>
        cases form with
        | scalar type => exact ⟨_, rfl⟩
        | enumeration name | record name | polymorphic base | any => cases hexact
  obtain ⟨p, hp⟩ := hparser
  have hparameter : C.parameterParser f .query false = .ok (.flat p) := by
    unfold parameterParser
    rw [hp]
  refine ⟨p, hp, ?_⟩
  rw [boundField, hnote]
  dsimp only
  rw [hlocation, hempty, hparameter]
  rfl

/-- Binding and decoding agree: where all fields of a record are read from the query and none of
them is a double, the record has a binder, and from the canonical texts of whichever members this
binder makes just the record that the object with these members is read as. -/
theorem bind_canonicalQuery_eq_ok_iff (hshape : C.shape className = .ok shape)
    (hfields : ∀ f ∈ shape.fields, f.FromQuery) :
    ∃ b, C.binder className = .ok b ∧ ∀ members : List (String × Json),
      (∀ m ∈ members, ∃ f ∈ shape.fields, f.wireName = m.1 ∧ f.type.Written m.2) →
      ∀ path x, b.bind C { query := Binding.canonicalQuery members } = .ok x ↔
        Body.readRecord C shape (Body.memberReaders C members) path = .ok x := by
  obtain ⟨_, _, hwire⟩ := shape_eq_ok hshape
  obtain ⟨bounds, hbounds⟩ : ∃ bounds, shape.fields.mapM (C.boundField className) = .ok bounds := by
    refine exists_mapM fun f hf => ?_
    obtain ⟨p, _, hbound⟩ := exists_boundField className (hfields f hf)
    exact ⟨_, hbound⟩
  refine ⟨⟨shape, bounds⟩, ?_, fun members hmembers path => ?_⟩
  · exact bind_eq_ok_iff.mpr ⟨shape, hshape, bind_eq_ok_iff.mpr ⟨bounds, hbounds, rfl⟩⟩
  have hmember : ∀ f ∈ shape.fields, ∀ j, Table.get? f.wireName members = some j →
      f.type.Written j := by
    intro f hf j hj
    obtain ⟨g, hg, hname, hwritten⟩ := hmembers _ (Table.mem_of_get? hj)
    have hsame : g = f := List.inj_on_of_nodup_map hwire hg hf hname
    exact hsame ▸ hwritten
  have hkept : bounds.map (·.field) = shape.fields :=
    map_of_mapM (fun f bound h => (boundField_eq_ok h).1) hbounds
  have hpart : ∀ bound ∈ bounds, Concur (Binding.collectField (Binding.buildFrom C members) bound)
      (Body.readField path (Body.memberReaders C members) bound.field) := by
    intro bound hbound
    obtain ⟨f, hf, hmade⟩ := exists_of_mem_mapM hbounds hbound
    obtain ⟨p, hparser, hown⟩ := exists_boundField (C := C) className (hfields f hf)
    rw [hown] at hmade
    cases hmade
    obtain ⟨owner, hcheck⟩ := checkConstraints_of_mem hshape hf
    have hsound : p.item.Sound := FlatParser.sound_of_flatParser? hcheck hparser
    exact Binding.concur_collectField hsound hparser (hmember f hf) path
  have hgather := concur_gather hpart
  rw [← Binding.collect_eq_gather, ← gather_map, hkept, ← Body.readFields_eq_gather] at hgather
  exact hgather.bind fun given => .refl _

/-- A record of parameters: an array of integers, a text in small letters and a truth value that may
be left out. -/
def search : Classes :=
  let query : Note := .parameter { location := .query }
  ({} : Classes).define
    { name := "Search", body := .record false,
      fields := [
        { name := "ids", default := .required,
          hint := .annotated (.collection .list (.builtin .integer)) [query] },
        { name := "term", default := .required,
          hint := .annotated (.builtin .text) [query, .constraint .lower] },
        { name := "exact", default := .required,
          hint := .annotated (.union false [.builtin .boolean, .noneType]) [query] }] }

/-- A query that leaves out the last member is bound to the record that the object is read as. -/
theorem bind_canonicalQuery_eq_ok_iff_search :
    let members : List (String × Json) :=
      [("ids", .array [.int 7, .int (-20)]), ("term", .text "Lean")]
    let x : Value := .record "Search"
      [("ids", .list [.int 7, .int (-20)]), ("term", .text "lean"), ("exact", .null)]
    Binding.canonicalQuery members = [("ids", ["7", "-20"]), ("term", ["Lean"])] ∧
      ∃ b, search.binder "Search" = .ok b ∧
        b.bind search { query := Binding.canonicalQuery members } = .ok x := by
  intro members x
  let note : ParameterNote := { location := .query }
  let shape : Shape := ⟨"Search", [
    ⟨"ids", "ids", "ids", .array .list (.leaf (.scalar .integer) false []) false [.parameter note],
      none, some note⟩,
    ⟨"term", "term", "term",
      .leaf (.scalar .text) false [.parameter note, .constraint .lower], none, some note⟩,
    ⟨"exact", "exact", "exact", .leaf (.scalar .boolean) true [.parameter note],
      none, some note⟩]⟩
  have hshape : search.shape "Search" = .ok shape := rfl
  have hfields : ∀ f ∈ shape.fields, f.FromQuery := by
    simp [shape, note, Field.FromQuery, TypeInfo.IsExact]
  have hsmall (n : Int) (hn : n.natAbs < 100) : Scalar.Written .integer (.int n) := by
    have hpower (limit : Nat) (hlimit : 2 ≤ limit) : 10 ^ 2 ≤ Nat.pow 10 limit :=
      Nat.pow_le_pow_right (by omega) hlimit
    have hlimit := hpower Number.digitLimit (by decide)
    exact .integer (by omega)
  have hmembers : ∀ m ∈ members, ∃ f ∈ shape.fields, f.wireName = m.1 ∧ f.type.Written m.2 := by
    intro m hm
    rcases List.mem_cons.mp hm with rfl | hm
    · have hitems : ∀ j ∈ [Json.int 7, .int (-20)], Scalar.Written .integer j := by
        intro j hj
        rcases List.mem_cons.mp hj with rfl | hj
        · exact hsmall 7 (by decide)
        · rw [List.mem_singleton.mp hj]
          exact hsmall (-20) (by decide)
      exact ⟨_, List.mem_cons_self, rfl, .array (by simp) hitems⟩
    · rw [List.mem_singleton.mp hm]
      exact ⟨_, List.mem_cons_of_mem _ List.mem_cons_self, rfl, .scalar (.text "Lean")⟩
  obtain ⟨b, hb, hagree⟩ := bind_canonicalQuery_eq_ok_iff hshape hfields
  exact ⟨rfl, b, hb, (hagree members hmembers "" x).mpr rfl⟩

end Classes

end HttpContract
