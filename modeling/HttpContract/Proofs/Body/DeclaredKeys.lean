import Mathlib.Logic.Relation
import HttpContract.Proofs.Body.Reading
import HttpContract.Proofs.Gathering

/-!
# Only declared keys count

Of an object that is read as a record only those members count that the shape declares, and of one
that is read as a variant the discriminator besides. The others may be there or not, and all of them
may stand in any order: the same value is read, or reading fails in the same way. This holds for any
number of objects at any depth.
-/

namespace HttpContract

namespace Classes

/-- The key by which an object tells which shape it has, if the form leaves that open. -/
def tagKeys (C : Classes) : Leaf → List String
  | .polymorphic base =>
    match C.hierarchy base with
    | .ok h => [h.discriminator]
    | .error _ => []
  | _ => []

/-- The shape that an object with given members is read by as a form: that of the record, or that of
the variant which the object names. -/
def shapeRead? (C : Classes) (form : Leaf) (members : List (String × Json)) : Option Shape :=
  match form with
  | .record name => (C.shape name).toOption
  | .polymorphic base =>
    match C.hierarchy base with
    | .error _ => none
    | .ok h =>
      match Table.get? h.discriminator members with
      | some (.text tag) => (h.variant? tag).bind fun name => (C.shape name).toOption
      | _ => none
  | _ => none

/-- The keys that count when an object with given members is read as a form. -/
def declaredKeys (C : Classes) (form : Leaf) (members : List (String × Json)) : List String :=
  C.tagKeys form ++ ((C.shapeRead? form members).map fun shape =>
    shape.fields.map (·.wireName)).getD []

variable {C : Classes} {form : Leaf} {members : List (String × Json)} {shape : Shape}

/-- An object that is read by a shape as a variant names this variant in a text. -/
theorem exists_variant_of_shapeRead? {base : String}
    (h : C.shapeRead? (.polymorphic base) members = some shape) :
    ∃ hierarchy tag name, C.hierarchy base = .ok hierarchy ∧
      Table.get? hierarchy.discriminator members = some (.text tag) ∧
      hierarchy.variant? tag = some name ∧ (C.shape name).toOption = some shape := by
  rw [shapeRead?] at h
  split at h
  · cases h
  · rename_i hierarchy hbase
    split at h
    · rename_i tag htag
      obtain ⟨name, hname, hshape⟩ := Option.bind_eq_some_iff.mp h
      exact ⟨hierarchy, tag, name, hbase, htag, hname, hshape⟩
    · cases h

/-- A shape that an object is read by is the shape of a class. -/
theorem exists_shape_of_shapeRead? (h : C.shapeRead? form members = some shape) :
    ∃ name, C.shape name = .ok shape := by
  have hclass : ∃ name, (C.shape name).toOption = some shape := by
    cases form with
    | record name => exact ⟨name, h⟩
    | polymorphic base =>
      obtain ⟨_, _, name, _, _, _, hshape⟩ := exists_variant_of_shapeRead? h
      exact ⟨name, hshape⟩
    | scalar | enumeration | any => cases h
  obtain ⟨name, hshape⟩ := hclass
  refine ⟨name, ?_⟩
  cases hmade : C.shape name with
  | error e =>
    rw [hmade] at hshape
    cases hshape
  | ok made =>
    rw [hmade] at hshape
    rw [Option.some.inj hshape]

/-- An object that is read by a shape has a text under the key that tells which one. -/
theorem exists_tag_of_shapeRead? (h : C.shapeRead? form members = some shape) {key : String}
    (hkey : key ∈ C.tagKeys form) : ∃ tag, Table.get? key members = some (.text tag) := by
  cases form with
  | record | scalar | enumeration | any => cases hkey
  | polymorphic base =>
    obtain ⟨hierarchy, tag, _, hbase, htag, _⟩ := exists_variant_of_shapeRead? h
    rw [tagKeys, hbase] at hkey
    obtain rfl := List.mem_singleton.mp hkey
    exact ⟨tag, htag⟩

end Classes

/-- One change of a JSON value that is read as a type: an object that is read as a record or as a
variant has its members in another order, or one more or one less under a key that does not count;
or such a change within an item, a value of a map or the value of a field. -/
inductive Rearrangement (C : Classes) : TypeInfo → Json → Json → Prop
  | reorder {form : Leaf} {nullable : Bool} {notes : List Note}
      {members others : List (String × Json)} (hform : form.isObject = true)
      (hdistinct : Table.Distinct members) (horder : members.Perm others) :
      Rearrangement C (.leaf form nullable notes) (.object members) (.object others)
  | insert {form : Leaf} {nullable : Bool} {notes : List Note}
      (front behind : List (String × Json)) {key : String} {value : Json}
      (hform : form.isObject = true) (hkey : key ∉ C.declaredKeys form (front ++ behind)) :
      Rearrangement C (.leaf form nullable notes) (.object (front ++ behind))
        (.object (front ++ (key, value) :: behind))
  | remove {form : Leaf} {nullable : Bool} {notes : List Note}
      (front behind : List (String × Json)) {key : String} {value : Json}
      (hform : form.isObject = true) (hkey : key ∉ C.declaredKeys form (front ++ behind)) :
      Rearrangement C (.leaf form nullable notes) (.object (front ++ (key, value) :: behind))
        (.object (front ++ behind))
  | member {form : Leaf} {nullable : Bool} {notes : List Note}
      (front behind : List (String × Json)) {shape : Shape} {f : Field} {j k : Json}
      (hform : form.isObject = true)
      (hshape : C.shapeRead? form (front ++ (f.wireName, j) :: behind) = some shape)
      (hf : f ∈ shape.fields) (hvalue : Rearrangement C f.type j k) :
      Rearrangement C (.leaf form nullable notes) (.object (front ++ (f.wireName, j) :: behind))
        (.object (front ++ (f.wireName, k) :: behind))
  | item {container : Container} {item : TypeInfo} {nullable : Bool} {notes : List Note}
      (front behind : List Json) {j k : Json} (hitem : Rearrangement C item j k) :
      Rearrangement C (.array container item nullable notes) (.array (front ++ j :: behind))
        (.array (front ++ k :: behind))
  | entry {item : TypeInfo} {nullable : Bool} {notes : List Note}
      (front behind : List (String × Json)) {key : String} {j k : Json}
      (hvalue : Rearrangement C item j k) :
      Rearrangement C (.map item nullable notes) (.object (front ++ (key, j) :: behind))
        (.object (front ++ (key, k) :: behind))

namespace Body

variable {C : Classes}

/-- Whether two JSON values are read alike as a type: as one value, or with the same failure. -/
def ReadAlike (C : Classes) (type : TypeInfo) (j k : Json) : Prop :=
  ∀ path constraints, read C j type path constraints = read C k type path constraints

/-- Whether what two objects have under one key is read alike, where they have something. -/
def MemberAlike (C : Classes) (type : TypeInfo) (key : String)
    (members others : List (String × Json)) : Prop :=
  Table.get? key members = Table.get? key others ∨
    ∃ j k, Table.get? key members = some j ∧ Table.get? key others = some k ∧ ReadAlike C type j k

/-- Objects whose members are read alike give the same value to a field. -/
theorem readField_congr {f : Field} {members others : List (String × Json)}
    (h : MemberAlike C f.type f.wireName members others) (path : String) :
    readField path (memberReaders C members) f = readField path (memberReaders C others) f := by
  rw [readField, readField, get?_memberReaders, get?_memberReaders]
  obtain heq | ⟨j, k, hj, hk, halike⟩ := h
  · rw [heq]
  · rw [hj, hk]
    dsimp only [Option.map_some]
    rw [halike]

/-- Objects whose members are read alike at all fields of a shape are read alike as a record of this
shape. -/
theorem readRecord_congr {shape : Shape} {members others : List (String × Json)}
    (h : ∀ f ∈ shape.fields, MemberAlike C f.type f.wireName members others) (path : String) :
    readRecord C shape (memberReaders C members) path =
      readRecord C shape (memberReaders C others) path := by
  rw [readRecord, readRecord, readFields_eq_gather, readFields_eq_gather,
    gather_congr fun f hf => (readField_congr (h f hf) path).symm]

/-- Objects that name the same variant, and whose members are read alike at the fields of the shape,
are read alike. -/
theorem readAlike_object {form : Leaf} (hform : form.isObject = true) {nullable : Bool}
    {notes : List Note} {members others : List (String × Json)}
    (htag : ∀ key ∈ C.tagKeys form, Table.get? key members = Table.get? key others)
    (hfields : ∀ shape, C.shapeRead? form members = some shape →
      ∀ f ∈ shape.fields, MemberAlike C f.type f.wireName members others) :
    ReadAlike C (.leaf form nullable notes) (.object members) (.object others) := by
  intro path constraints
  cases form with
  | scalar | enumeration | any => cases hform
  | record name =>
    rw [read_record, read_record]
    cases hshape : C.shape name with
    | error e => rfl
    | ok shape =>
      have hread : C.shapeRead? (.record name) members = some shape := by
        rw [Classes.shapeRead?, hshape]
        rfl
      exact readRecord_congr (hfields shape hread) path
  | polymorphic base =>
    rw [read_polymorphic, read_polymorphic, readVariant, readVariant]
    cases hbase : C.hierarchy base with
    | error e => rfl
    | ok h =>
      have hsame : Table.get? h.discriminator members = Table.get? h.discriminator others := by
        apply htag
        rw [Classes.tagKeys, hbase]
        exact List.mem_singleton_self _
      simp only [configured, mapError_ok, bind, Except.bind]
      rw [← hsame]
      cases hvalue : Table.get? h.discriminator members with
      | none => rfl
      | some tag =>
        cases tag with
        | text name =>
          dsimp only
          cases hvariant : h.variant? name with
          | none => rfl
          | some className =>
            dsimp only
            cases hshape : C.shape className with
            | error e => rfl
            | ok shape =>
              have hread : C.shapeRead? (.polymorphic base) members = some shape := by
                simp only [Classes.shapeRead?, hbase, hvalue, hvariant, hshape, Option.bind_some]
                rfl
              exact readRecord_congr (hfields shape hread) path
        | null | bool | number | array | object => rfl

/-- An item that is read alike can stand in for another one. -/
theorem readItems_instead {item : TypeInfo} {j k : Json} (h : ReadAlike C item j k) (path : String)
    (constraints : List Constraint) (front behind : List Json) (index : Nat) :
    readItems item path constraints index (itemReaders C (front ++ j :: behind)) =
      readItems item path constraints index (itemReaders C (front ++ k :: behind)) := by
  induction front generalizing index with
  | nil =>
    rw [List.nil_append, List.nil_append, itemReaders, itemReaders, readItems, readItems, h]
  | cons first rest ih =>
    rw [List.cons_append, List.cons_append, itemReaders, itemReaders, readItems, readItems, ih]

/-- A value of a map that is read alike can stand in for another one. -/
theorem readEntries_instead {item : TypeInfo} {j k : Json} (h : ReadAlike C item j k)
    (path key : String) (front behind : List (String × Json)) :
    readEntries item path (memberReaders C (front ++ (key, j) :: behind)) =
      readEntries item path (memberReaders C (front ++ (key, k) :: behind)) := by
  induction front with
  | nil =>
    rw [List.nil_append, List.nil_append, memberReaders, memberReaders, readEntries, readEntries, h]
  | cons first rest ih =>
    obtain ⟨other, value⟩ := first
    rw [List.cons_append, List.cons_append, memberReaders, memberReaders, readEntries, readEntries,
      ih]

/-- An object is read alike with a member more under a key that does not count. -/
theorem readAlike_insert {form : Leaf} (hform : form.isObject = true) {nullable : Bool}
    {notes : List Note} {front behind : List (String × Json)} {key : String}
    (hkey : key ∉ C.declaredKeys form (front ++ behind)) (value : Json) :
    ReadAlike C (.leaf form nullable notes) (.object (front ++ behind))
      (.object (front ++ (key, value) :: behind)) := by
  rw [Classes.declaredKeys, List.mem_append, not_or] at hkey
  obtain ⟨htag, hwire⟩ := hkey
  refine readAlike_object hform (fun other hother => ?_) fun shape hshape f hf => Or.inl ?_
  · have hne : other ≠ key := by
      rintro rfl
      exact htag hother
    exact (Table.get?_insert_of_ne hne front behind value).symm
  · rw [hshape] at hwire
    have hne : f.wireName ≠ key := fun heq => hwire (heq ▸ List.mem_map_of_mem hf)
    exact (Table.get?_insert_of_ne hne front behind value).symm

/-- An object is read alike when the value of a field is another one that is read alike, unless this
is the tag of a variant. -/
theorem readAlike_member {form : Leaf} (hform : form.isObject = true) {nullable : Bool}
    {notes : List Note} {front behind : List (String × Json)} {shape : Shape} {f : Field}
    {j k : Json} (hshape : C.shapeRead? form (front ++ (f.wireName, j) :: behind) = some shape)
    (hf : f ∈ shape.fields) (htext : ∀ tag, j ≠ .text tag) (h : ReadAlike C f.type j k) :
    ReadAlike C (.leaf form nullable notes) (.object (front ++ (f.wireName, j) :: behind))
      (.object (front ++ (f.wireName, k) :: behind)) := by
  refine readAlike_object hform (fun key hkey => ?_) fun other hother g hg => ?_
  · obtain hsame | ⟨rfl, hj, _⟩ := Table.get?_instead f.wireName key front behind j k
    · exact hsame
    · obtain ⟨tag, htag⟩ := Classes.exists_tag_of_shapeRead? hshape hkey
      exact absurd (Option.some.inj (hj.symm.trans htag)) (htext tag)
  · obtain rfl : shape = other := Option.some.inj (hshape.symm.trans hother)
    obtain hsame | ⟨hname, hj, hk⟩ := Table.get?_instead f.wireName g.wireName front behind j k
    · exact Or.inl hsame
    · obtain ⟨name, hmade⟩ := Classes.exists_shape_of_shapeRead? hshape
      obtain ⟨_, _, hdistinct⟩ := Classes.shape_eq_ok hmade
      obtain rfl := List.inj_on_of_nodup_map hdistinct hg hf hname
      exact Or.inr ⟨j, k, hj, hk, h⟩

/-- A text has nothing to rearrange. -/
theorem not_rearrangement_text {type : TypeInfo} {s : String} {k : Json} :
    ¬Rearrangement C type (.text s) k := by
  rintro ⟨⟩

/-- One change of a JSON value does not change how it is read. -/
theorem readAlike_of_rearrangement {type : TypeInfo} {j k : Json} (h : Rearrangement C type j k) :
    ReadAlike C type j k := by
  induction h with
  | reorder hform hdistinct horder =>
    have hsame := fun key => Table.get?_of_perm hdistinct horder key
    exact readAlike_object hform (fun key _ => hsame key) fun _ _ f _ => Or.inl (hsame f.wireName)
  | insert front behind hform hkey => exact readAlike_insert hform hkey _
  | remove front behind hform hkey =>
    exact fun path constraints => (readAlike_insert hform hkey _ path constraints).symm
  | member front behind hform hshape hf hvalue ih =>
    refine readAlike_member hform hshape hf ?_ ih
    rintro tag rfl
    exact not_rearrangement_text hvalue
  | item front behind hitem ih =>
    intro path constraints
    rw [read_array, read_array, readItems_instead ih]
  | entry front behind hvalue ih =>
    intro path constraints
    rw [read_map, read_map, readEntries_instead ih]

end Body

/-- Only declared keys count: however many objects that are read as records or as variants have
their members in another order, or more or less of them under keys that do not count, at whatever
depth, the same value is read, or reading fails with the same failure. -/
theorem Body.readValue_eq_of_rearranged {C : Classes} {type : TypeInfo} {j k : Json}
    (h : Relation.ReflTransGen (Rearrangement C type) j k) (path : String) :
    readValue C type j path = readValue C type k path := by
  induction h with
  | refl => rfl
  | tail _ hstep ih => exact ih.trans (readAlike_of_rearrangement hstep path [])

/-- A base with one variant, which has a list of records. -/
def Classes.kennel : Classes :=
  ((({} : Classes).define
    { name := "Toy", body := .record false,
      fields := [{ name := "label", hint := .builtin .text, default := .required }] }).define
    { name := "Pet", body := .plain, notes := { discriminator := some "type" } }).define
    { name := "Dog", bases := ["Pet"], body := .record false,
      fields := [
        { name := "name", hint := .builtin .text, default := .required },
        { name := "toys", hint := .collection .list (.named "Toy"), default := .required }] }

/-- A dog in a list, its members turned around, with an age that it does not declare and a toy with
a color: it is read as the same dog. -/
theorem Body.readValue_eq_of_rearranged_kennel :
    let type : TypeInfo := .array .list (.leaf (.polymorphic "Pet") false []) false []
    let ball : List (String × Json) := [("label", .text "ball")]
    let j : Json := .array [.object
      [("type", .text "Dog"), ("name", .text "Rex"), ("toys", .array [.object ball])]]
    let k : Json := .array [.object
      [("age", .int 3), ("toys", .array [.object (("color", .text "red") :: ball)]),
        ("name", .text "Rex"), ("type", .text "Dog")]]
    Relation.ReflTransGen (Rearrangement Classes.kennel type) j k ∧
      readValue Classes.kennel type k "" = .ok (.list [.record "Dog"
        [("name", .text "Rex"), ("toys", .list [.record "Toy" [("label", .text "ball")]])]]) := by
  intro type ball j k
  let name : Field := ⟨"name", "name", "name", .leaf (.scalar .text) false [], none, none⟩
  let toys : Field :=
    ⟨"toys", "toys", "toys", .array .list (.leaf (.record "Toy") false []) false [], none, none⟩
  let dog (toy : List (String × Json)) : List (String × Json) :=
    [("toys", .array [.object toy]), ("name", .text "Rex"), ("type", .text "Dog")]
  have hshape (toy : List (String × Json)) :
      Classes.kennel.shapeRead? (.polymorphic "Pet") (dog toy) = some ⟨"Dog", [name, toys]⟩ := rfl
  have hturned : Rearrangement Classes.kennel type j (.array [.object (dog ball)]) := by
    have hdistinct : ["type", "name", "toys"].Nodup := by decide
    exact .item [] [] (.reorder rfl hdistinct (List.reverse_perm _).symm)
  have htoy : Rearrangement Classes.kennel toys.type (.array [.object ball])
      (.array [.object (("color", .text "red") :: ball)]) :=
    .item [] [] (.insert [] ball rfl (by decide))
  have hmember : Rearrangement Classes.kennel type (.array [.object (dog ball)])
      (.array [.object (dog (("color", .text "red") :: ball))]) := by
    have hfield : toys ∈ [name, toys] := List.mem_cons_of_mem _ List.mem_cons_self
    exact .item [] [] (.member [] _ rfl (hshape ball) hfield htoy)
  have hage : Rearrangement Classes.kennel type
      (.array [.object (dog (("color", .text "red") :: ball))]) k :=
    .item [] [] (.insert [] _ rfl (by decide))
  have hsteps : Relation.ReflTransGen (Rearrangement Classes.kennel type) j k :=
    ((Relation.ReflTransGen.single hturned).tail hmember).tail hage
  refine ⟨hsteps, ?_⟩
  rw [← readValue_eq_of_rearranged hsteps]
  rfl

end HttpContract
