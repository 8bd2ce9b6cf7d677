import HttpContract.Proofs.Absence
import HttpContract.Proofs.Supplying
import HttpContract.Proofs.Body.Finite
import HttpContract.Proofs.Schema.Orders

/-!
# Defaults that are sent

A field that is left out of a body has its default as it is, or what a factory makes for it then,
and nobody checks it. When the default that the document shows is sent for the field it is read, and
checked, like any other value. The two come to the same exactly when the reader and the constructor
take what is shown for a value that equals the one that a record has without it and the check of
order still passes, so always when the default is no factory's and a value of the field's type.
-/

namespace HttpContract

/-- Whether two values match where containers compare what they hold: they are one and the same, or
equal. -/
def Value.Matches (v w : Value) : Prop := v = w ∨ v.same w = true

/-- Whether the attributes of two records of one class match, one by one. -/
def AttributesMatch (attributes others : List (String × Value)) : Prop :=
  List.Forall₂ (fun p q => p.1 = q.1 ∧ p.2.Matches q.2) attributes others

/-- Attributes match themselves. -/
theorem attributesMatch_refl (attributes : List (String × Value)) :
    AttributesMatch attributes attributes :=
  List.forall₂_same.mpr fun _ _ => ⟨rfl, Or.inl rfl⟩

/-- Attributes with one set to another value match when this value does. -/
theorem attributesMatch_set_iff {attributes : List (String × Value)} {name : String} {v w : Value}
    (h : Table.get? name attributes = some v) :
    AttributesMatch attributes (Table.set name w attributes) ↔ v.Matches w := by
  induction attributes with
  | nil => cases h
  | cons entry rest ih =>
    obtain ⟨key, old⟩ := entry
    rw [Table.set, Table.update]
    by_cases hkey : key = name
    · rw [Table.get?, if_pos hkey] at h
      cases h
      rw [if_pos hkey, AttributesMatch, List.forall₂_cons]
      exact ⟨fun hmatch => hmatch.1.2, fun hmatch => ⟨⟨rfl, hmatch⟩, attributesMatch_refl rest⟩⟩
    · rw [Table.get?, if_neg hkey] at h
      rw [if_neg hkey, AttributesMatch, List.forall₂_cons]
      exact ⟨fun hmatch => (ih h).mp hmatch.2, fun hmatch => ⟨⟨rfl, Or.inl rfl⟩, (ih h).mpr hmatch⟩⟩

namespace Field

/-- Whether a record gets a value for a field when a JSON value is sent for it: the reader of the
field and the constructor make this value of it, and the check of order passes on the record. -/
def Receives (C : Classes) (className : String) (attributes : List (String × Value)) (path : String)
    (f : Field) (j : Json) (w : Value) : Prop :=
  ∃ v, Body.readValue C f.type j (Body.memberPath path f.wireName) = .ok v ∧
    C.takenAs className f v = .ok w ∧
      C.runOrderCheck className (Table.set f.name w attributes) = .ok ()

/-- What comes of an object that a record was read from when a JSON value is sent for a field that
it left out, whose default is `d`, and for which the record has `held`. -/
structure SendsDefault (C : Classes) (className : String) (attributes : List (String × Value))
    (path : String) (f : Field) (d held : Value) (j : Json) (made : Except Failure Value) :
    Prop where
  /-- The record has under the field what stands there for no value. -/
  omitted : Table.get? f.name attributes = some held ∧
    (C.defaultOf className f.name).fresh? = some held
  /-- This is the default where no factory makes it. -/
  fixed : (C.defaultOf className f.name).isMade = false → held = d
  /-- It is read exactly when the record gets a value for the field, and then as the record with
  this value. -/
  taken : ∀ v, made = .ok v ↔ ∃ w, f.Receives C className attributes path j w ∧
    v = .record className (Table.set f.name w attributes)
  /-- It is read as an equal record exactly when the record gets a value that matches the one that
  it has without. -/
  equal : (∃ others, made = .ok (.record className others) ∧ AttributesMatch attributes others) ↔
    ∃ w, f.Receives C className attributes path j w ∧ held.Matches w
  /-- It is read as just the same record when the record has the default without it, and this is a
  value of the field's type, and one that a model takes as it is. -/
  kept : C.HierarchiesDeclared → C.Inhabits f.type [] d →
    (C.isModel className = true → C.takenAs className f d = .ok d) → held = d →
      made = .ok (.record className attributes)

end Field

namespace Body

variable {C : Classes} {className : String} {shape : Shape} {f : Field} {d : Value}
  {members : List (String × Json)} {path : String} {attributes : List (String × Value)}

/-- What is gathered from an object for the constructor holds nothing under the name of a field that
is left out and has a default, and what is read for the field is put in when it is sent. -/
theorem exists_readFields_set (hshape : C.shape className = .ok shape) (hf : f ∈ shape.fields)
    (honly : ∀ g ∈ shape.fields, g.initName = f.initName → g = f) (hd : f.default = some d)
    (hkey : Table.get? f.wireName members = none) {given : List (String × Value)}
    (h : readFields path (memberReaders C members) shape.fields = .ok given) (j : Json) :
    ∃ front behind, given = front ++ behind ∧ f.initName ∉ Table.keys given ∧
      readFields path (memberReaders C (Table.set f.wireName j members)) shape.fields =
        (readValue C f.type j (memberPath path f.wireName)).map fun v =>
          front ++ (f.initName, v) :: behind := by
  obtain ⟨_, _, hwire⟩ := Classes.shape_eq_ok hshape
  rw [readFields_eq_gather] at h ⊢
  have hnothing : readField path (memberReaders C members) f = .ok [] := by
    rw [readField, get?_memberReaders, hkey]
    simp [Field.absent, hd]
  have hothers : ∀ g ∈ shape.fields, g ≠ f →
      readField path (memberReaders C (Table.set f.wireName j members)) g =
        readField path (memberReaders C members) g := by
    intro g hg hne
    have hapart : g.wireName ≠ f.wireName := fun heq =>
      hne (List.inj_on_of_nodup_map hwire hg hf heq)
    rw [readField, readField, get?_memberReaders, get?_memberReaders, Table.get?_set, if_neg hapart]
  obtain ⟨front, behind, hgiven, hinstead⟩ :=
    exists_gather_instead (List.Nodup.of_map _ hwire) hf hnothing hothers h
  refine ⟨front, behind, hgiven, fun hmem => ?_, ?_⟩
  · obtain ⟨p, hp, hname⟩ := List.mem_map.mp hmem
    obtain ⟨g, hg, own, hown, hpart⟩ := exists_part_of_mem_gather h hp
    obtain rfl : g = f := honly g hg (((given_readField g own hown).1 p hpart).trans hname)
    cases hown.symm.trans hnothing
    cases hpart
  · rw [hinstead, readField, get?_memberReaders, Table.get?_set, if_pos rfl, readValue]
    dsimp only [Option.map_some]
    cases read C j f.type (memberPath path f.wireName) [] <;> simp [Except.map]

/-- What is read of an object that left out a field with a default, once something is sent for it,
is the instance with what the field receives. -/
theorem readRecord_set_eq_ok_iff (hC : C.WellFormed) (hshape : C.shape className = .ok shape)
    (hf : f ∈ shape.fields) (honly : ∀ g ∈ shape.fields, g.initName = f.initName → g = f)
    (hd : f.default = some d) (hkey : Table.get? f.wireName members = none)
    (h : readRecord C shape (memberReaders C members) path = .ok (.record className attributes))
    (j : Json) {v : Value} :
    readRecord C shape (memberReaders C (Table.set f.wireName j members)) path = .ok v ↔
      ∃ w, f.Receives C className attributes path j w ∧
        v = .record className (Table.set f.name w attributes) := by
  obtain ⟨given, hgiven, hmade⟩ := bind_eq_ok_iff.mp h
  obtain ⟨front, behind, rfl, hnew, hsent⟩ := exists_readFields_set hshape hf honly hd hkey hgiven j
  rw [readRecord, hsent]
  constructor
  · intro hread
    obtain ⟨_, hmore, hread⟩ := bind_eq_ok_iff.mp hread
    obtain ⟨u, hu, rfl⟩ := map_eq_ok_iff.mp hmore
    obtain ⟨w, hw, hcheck, heq⟩ :=
      (Classes.construct_adds_iff hC hshape hf honly hnew hmade).mp hread
    exact ⟨w, ⟨u, hu, hw, hcheck⟩, heq.symm⟩
  · rintro ⟨w, ⟨u, hu, hw, hcheck⟩, rfl⟩
    exact bind_eq_ok_iff.mpr ⟨_, map_eq_ok_iff.mpr ⟨u, hu, rfl⟩,
      (Classes.construct_adds_iff hC hshape hf honly hnew hmade).mpr ⟨w, hw, hcheck, rfl⟩⟩

/-- What is sent for a field with a default that an object left out decides, together with the
constructor, what comes of the object. -/
theorem sendsDefault_readRecord (hC : C.WellFormed) (hcurrent : C.Current)
    (hshape : C.shape className = .ok shape) (hf : f ∈ shape.fields)
    (honly : ∀ g ∈ shape.fields, g.initName = f.initName → g = f) (hd : f.default = some d)
    (hkey : Table.get? f.wireName members = none)
    (h : readRecord C shape (memberReaders C members) path = .ok (.record className attributes))
    {documented j : Json} (hj : toJson C d = .ok documented) (hshown : documented.finiteOnly = j) :
    ∃ held, f.SendsDefault C className attributes path d held j
      (readRecord C shape (memberReaders C (Table.set f.wireName j members)) path) := by
  obtain ⟨given, hgiven, hmade⟩ := bind_eq_ok_iff.mp h
  obtain ⟨front, behind, rfl, hnew, _⟩ := exists_readFields_set hshape hf honly hd hkey hgiven j
  have hdeclared := Classes.default_eq_declared? hC hshape hf
  obtain ⟨held, hheld⟩ : ∃ held, (C.defaultOf className f.name).fresh? = some held := by
    rw [← Option.isSome_iff_exists, FieldDefault.isSome_fresh?, ← hdeclared, hd]
    rfl
  have hdefault : Table.get? f.name attributes = some held := by
    rw [Classes.get?_construct_default hC hshape hf hnew hmade, hheld]
  have htaken (v : Value) := readRecord_set_eq_ok_iff hC hshape hf honly hd hkey h j (v := v)
  refine ⟨held, ⟨hdefault, hheld⟩, fun hmade => ?_, htaken, ?_, ?_⟩
  case refine_1 =>
    rw [FieldDefault.fresh?_eq_declared? hmade, ← hdeclared, hd] at hheld
    exact (Option.some.inj hheld).symm
  case refine_2 =>
    constructor
    · rintro ⟨others, hread, hmatch⟩
      obtain ⟨w, hw, heq⟩ := (htaken _).mp hread
      cases heq
      exact ⟨w, hw, (attributesMatch_set_iff hdefault).mp hmatch⟩
    · rintro ⟨w, hw, hmatch⟩
      exact ⟨_, (htaken _).mpr ⟨w, hw, rfl⟩, (attributesMatch_set_iff hdefault).mpr hmatch⟩
  case refine_3 =>
    intro hhierarchies hinhabits hkept hsame
    subst hsame
    obtain ⟨written, hwritten, hread⟩ := hinhabits.exists_read hC hcurrent hhierarchies
    obtain rfl : documented = written := Except.ok.inj (hj.symm.trans hwritten)
    obtain rfl : documented = j := (hinhabits.shownAsWritten documented hj).symm.trans hshown
    have hown : C.takenAs className f held = .ok held := by
      cases hmodel : C.isModel className with
      | false => exact Classes.takenAs_of_plain hmodel f held
      | true => exact hkept hmodel
    have hsame : Table.set f.name held attributes = attributes := Table.set_of_get? hdefault
    have hcheck := Classes.runOrderCheck_of_construct hshape hmade
    refine (htaken _).mpr ⟨held, ⟨held, hread _, hown, ?_⟩, ?_⟩
    · rw [hsame, hcheck]
    · rw [hsame]

end Body

/-- The schema with properties that is registered for a class is the body of the class as a record.
-/
theorem SchemaRegistry.Holds.bodyOf_record {C : Classes} {met : List Leaf} {r : SchemaRegistry}
    (hholds : Holds C met r) {className : String} (hregistered : className ∈ met.map Leaf.label)
    {s : Schema} (hs : r.schema? (C.schemaNameOf className) = some s)
    (hproperties : s.properties ≠ none) : C.bodyOf (.record className) = .ok s := by
  obtain ⟨form, _, rfl, hbody⟩ := hholds.exists_body hregistered hs
  rwa [← Classes.eq_record_of_properties hbody hproperties]

/-- For every record whose schema is registered, and every field of it with a default that shares
its name for the constructor with no other field: an object that the field was left out of is read,
when what the document shows as the default is sent for the field, as far as the reader and the
constructor take that, and as an equal record exactly when they take it for a value that equals the
one that the record has without it. -/
theorem Classes.Described.sendsDefault {C : Classes} (hC : C.Described) (bases : List String)
    {calls : List BuildCall} {returned : List Schema} {b : SchemaBuilder}
    (hrun : (BuildCall.performAll (C.settle bases) calls).run {} = .ok returned b)
    {className : String} (hregistered : className ∈ b.registry.entries.map (·.owner)) {s : Schema}
    (hs : b.registry.schema? ((C.settle bases).schemaNameOf className) = some s)
    {properties : List (String × Schema)} (hproperties : s.properties = some properties)
    {shape : Shape} (hshape : (C.settle bases).shape className = .ok shape) {f : Field}
    (hf : f ∈ shape.fields) {d : Value} (hd : f.default = some d)
    (honly : ∀ g ∈ shape.fields, g.initName = f.initName → g = f) :
    ∃ property j, Table.get? f.wireName properties = some property ∧
      property.toJson.member? "default" = some j ∧
      ∀ members path v, Table.get? f.wireName members = none →
        Body.readRecord (C.settle bases) shape (Body.memberReaders (C.settle bases) members) path =
          .ok v →
        ∃ attributes held, v = .record className attributes ∧
          f.SendsDefault (C.settle bases) className attributes path d held j
            (Body.readRecord (C.settle bases) shape
              (Body.memberReaders (C.settle bases) (Table.set f.wireName j members)) path) := by
  have hcurrent := hC.current_settle bases
  obtain ⟨met, _, hholds, howners⟩ := BuildCall.holds_performAll hrun
  rw [howners] at hregistered
  have hbody := hholds.bodyOf_record hregistered hs (by simp [hproperties])
  obtain ⟨_, hfound, hfields⟩ := presence_bodyOf hcurrent hshape hbody
  obtain rfl := Option.some.inj (hfound.symm.trans hproperties)
  obtain ⟨_, property, hproperty, hdocuments⟩ := hfields f hf
  obtain ⟨documented, hj, hdefault⟩ := hdocuments.present d hd
  refine ⟨property, documented.finiteOnly, hproperty, ?_, fun members path v hkey hread => ?_⟩
  · rw [hdocuments.written, hdefault]
    rfl
  · obtain ⟨_, _, hmade⟩ := bind_eq_ok_iff.mp hread
    obtain ⟨attributes, rfl⟩ := exists_record_of_construct hshape hmade
    obtain ⟨held, hsends⟩ := Body.sendsDefault_readRecord (hC.wellFormed_settle bases) hcurrent
      hshape hf honly hd hkey hread hj rfl
    exact ⟨attributes, held, rfl, hsends⟩

/-- A table without marked bases has all the hierarchies that it needs. -/
theorem Classes.hierarchiesDeclared_of_entries {C : Classes}
    (h : ∀ entry ∈ C.entries, entry.definition.notes.discriminator = none) :
    C.HierarchiesDeclared := by
  intro base hbase
  obtain ⟨tag, htag⟩ := Option.isSome_iff_exists.mp hbase
  obtain ⟨entry, hfound, hmark⟩ := Option.bind_eq_some_iff.mp htag
  rw [h entry (List.mem_of_find?_eq_some hfound)] at hmark
  cases hmark

/-- A record with a default that its constraint allows. -/
def Classes.paging : Classes :=
  ({} : Classes).define
    { name := "Page", body := .record false,
      fields := [
        { name := "size", default := .value (.int 20),
          hint := .annotated (.builtin .integer) [.constraint (.min (.int 1) none)] }] }

/-- The default that is documented may be sent for the page size, or nothing. -/
theorem Classes.Described.sendsDefault_paging :
    let read (shape : Shape) (members : List (String × Json)) :=
      Body.readRecord paging shape (Body.memberReaders paging members) ""
    ∃ returned b s properties property shape,
      (BuildCall.performAll paging [.hint (.named "Page")]).run {} = .ok returned b ∧
      b.registry.schema? "Page" = some s ∧ s.properties = some properties ∧
      Table.get? "size" properties = some property ∧
      property.toJson.member? "default" = some (.int 20) ∧ paging.shape "Page" = .ok shape ∧
      read shape [] = .ok (.record "Page" [("size", .int 20)]) ∧
      read shape [("size", .int 20)] = read shape [] := by
  intro read
  have hdescribed : paging.Described := .define .empty rfl (by simp)
  have hdeclared : paging.HierarchiesDeclared := hierarchiesDeclared_of_entries (by decide)
  let size : Field :=
    { name := "size", wireName := "size", initName := "size", default := some (.int 20),
      type := .leaf (.scalar .integer) false [.constraint (.min (.int 1) none)],
      parameter := none }
  let shape : Shape := ⟨"Page", [size]⟩
  obtain ⟨returned, b, s, properties, property, hrun, howner, hs, hproperties, hproperty, hshown⟩ :
      ∃ returned b s properties property,
        (BuildCall.performAll paging [.hint (.named "Page")]).run {} = .ok returned b ∧
        "Page" ∈ b.registry.entries.map (·.owner) ∧
        b.registry.schema? "Page" = some s ∧ s.properties = some properties ∧
        Table.get? "size" properties = some property ∧
        property.toJson.member? "default" = some (.int 20) :=
    ⟨_, _, _, _, _, rfl, List.mem_cons_self, rfl, rfl, rfl, rfl⟩
  have hshape : paging.shape "Page" = .ok shape := rfl
  have honly : ∀ g ∈ shape.fields, g.initName = size.initName → g = size :=
    fun g hg _ => List.mem_singleton.mp hg
  have hleft : read shape [] = .ok (.record "Page" [("size", .int 20)]) := rfl
  obtain ⟨found, j, hfound, hj, hsends⟩ := sendsDefault hdescribed [] hrun howner hs hproperties
    hshape List.mem_cons_self rfl honly
  obtain rfl : property = found := Option.some.inj (hproperty.symm.trans hfound)
  obtain rfl : .int 20 = j := Option.some.inj (hshown.symm.trans hj)
  obtain ⟨attributes, held, hrecord, hsent⟩ := hsends [] "" _ rfl hleft
  have hinhabits : paging.Inhabits size.type [] (.int 20) := .scalar (.integer 20) fun _ => rfl
  refine ⟨returned, b, s, properties, property, shape, hrun, hs, hproperties, hproperty, hshown,
    hshape, hleft, ?_⟩
  rw [hleft, hrecord]
  exact hsent.kept hdeclared hinhabits nofun (hsent.fixed rfl)

/-- A record with a default that its own constraint refuses, a model with two fields that its
constructor knows by one name, and a record with a default that a factory makes. -/
def Classes.careless : Classes :=
  ((({} : Classes).define
    { name := "Page", body := .record false,
      fields := [
        { name := "limit", default := .value (.int 0),
          hint := .annotated (.builtin .integer) [.constraint (.min (.int 1) none)] }] }).define
    { name := "Pair", body := .model false [],
      fields := [
        { name := "a", default := .value (.int 1), options := some { outerName := some "k" },
          hint := .annotated (.builtin .integer) [.wireName "a"] },
        { name := "b", default := .value (.int 2), options := some { outerName := some "k" },
          hint := .annotated (.builtin .integer) [.wireName "b"] }] }).define
    { name := "Ticket", body := .record false,
      fields := [
        { name := "id", hint := .builtin .text, default := .made (.text "a") (.text "b") }] }

/-- A documented default is refused by the constraint of its field, one that is sent for a field is
taken by another field of the same name for the constructor too, and one that a factory has made for
the declaration is not what it makes for a record. -/
theorem Classes.exists_default_unlike_omission :
    let read (shape : Shape) (members : List (String × Json)) :=
      Body.readRecord careless shape (Body.memberReaders careless members) ""
    (∃ returned b s properties property shape,
      (BuildCall.performAll careless [.hint (.named "Page")]).run {} = .ok returned b ∧
      b.registry.schema? "Page" = some s ∧ s.properties = some properties ∧
      Table.get? "limit" properties = some property ∧
      property.toJson.member? "default" = some (.int 0) ∧ careless.shape "Page" = .ok shape ∧
      read shape [] = .ok (.record "Page" [("limit", .int 0)]) ∧
      ∀ v, read shape [("limit", .int 0)] ≠ .ok v) ∧
    (∃ returned b s properties property shape,
      (BuildCall.performAll careless [.hint (.named "Pair")]).run {} = .ok returned b ∧
      b.registry.schema? "Pair" = some s ∧ s.properties = some properties ∧
      Table.get? "b" properties = some property ∧
      property.toJson.member? "default" = some (.int 2) ∧ careless.shape "Pair" = .ok shape ∧
      read shape [] = .ok (.record "Pair" [("a", .int 1), ("b", .int 2)]) ∧
      read shape [("b", .int 2)] = .ok (.record "Pair" [("a", .int 2), ("b", .int 2)]) ∧
      ¬AttributesMatch [("a", .int 1), ("b", .int 2)] [("a", .int 2), ("b", .int 2)]) ∧
    ∃ returned b s properties property shape,
      (BuildCall.performAll careless [.hint (.named "Ticket")]).run {} = .ok returned b ∧
      b.registry.schema? "Ticket" = some s ∧ s.properties = some properties ∧
      Table.get? "id" properties = some property ∧
      property.toJson.member? "default" = some (.text "a") ∧ careless.shape "Ticket" = .ok shape ∧
      read shape [] = .ok (.record "Ticket" [("id", .text "b")]) ∧
      read shape [("id", .text "a")] = .ok (.record "Ticket" [("id", .text "a")]) ∧
      ¬AttributesMatch [("id", .text "b")] [("id", .text "a")] := by
  refine ⟨⟨_, _, _, _, _, _, rfl, rfl, rfl, rfl, rfl, rfl, rfl, ?_⟩,
    ⟨_, _, _, _, _, _, rfl, rfl, rfl, rfl, rfl, rfl, rfl, rfl, ?_⟩,
    ⟨_, _, _, _, _, _, rfl, rfl, rfl, rfl, rfl, rfl, rfl, rfl, ?_⟩⟩
  · intro v h
    cases h
  · intro hmatch
    obtain ⟨⟨_, hfirst⟩, _⟩ := List.forall₂_cons.mp hmatch
    rcases hfirst with heq | hsame
    · cases heq
    · simp [Value.int, Value.same, Value.countsAs, Value.asNumber?, Number.same,
        Number.position?] at hsame
  · intro hmatch
    obtain ⟨⟨_, hid⟩, _⟩ := List.forall₂_cons.mp hmatch
    rcases hid with heq | hsame
    · simp at heq
    · simp [Value.same, Value.asText?] at hsame

end HttpContract
