import HttpContract.Proofs.Json.Written
import HttpContract.Proofs.Records
import Mathlib.Data.List.Perm.Subperm
import Mathlib.Logic.Relation

/-!
# Bodies that are strict and whole

A body is a JSON text exactly when no infinite or undefined number is written in it. The tree that
it denotes shows all of the value, each item, entry and field in a place of its own, exactly when no
dictionary that is written has two keys of one text.
-/

namespace HttpContract

namespace Value

/-- The items of a sequence. -/
def items? : Value → Option (List Value)
  | .list items | .tuple items | .set _ items => some items
  | _ => none

/-- The JSON value of a value without parts. -/
def scalarJson? : Value → Option Json
  | .null => some .null
  | .bool b => some (.bool b)
  | .number n => some (.number n)
  | .text s => some (.text s)
  | .uuid u => some (.text u.toText)
  | .date d => some (.text d.toText)
  | .dateTime t => some (.text t.toText)
  | _ => none

/-- The parts of a dictionary or record by name: the values of entries by the texts of their keys,
and those of all declared fields by their names for clients. -/
inductive Parts (C : Classes) : Value → List (String × Value) → Prop
  | dict (entries : List (Value × Value)) :
      Parts C (.dict entries) (entries.map fun entry => (entry.1.plainText, entry.2))
  | record {className : String} {attributes : List (String × Value)} {shape : Shape}
      {value : Field → Value} (hshape : C.shape className = .ok shape)
      (hvalue : ∀ f ∈ shape.fields, Table.get? f.name attributes = some (value f)) :
      Parts C (.record className attributes) (shape.fields.map fun f => (f.wireName, value f))

/-- Whether a tree shows all of a value: scalars as they are, items in their order, and each part in
a member of its own that has its name. -/
inductive ShownBy (C : Classes) : Value → JsonTree → Prop
  | scalar {v : Value} {j : Json} (hscalar : v.scalarJson? = some j) : ShownBy C v j.tree
  | member {enumeration name : String} {mixin : EnumMixin} {value : Value} {t : JsonTree}
      (h : ShownBy C value t) : ShownBy C (.member enumeration name mixin value) t
  | items {v : Value} {items : List Value} {trees : List JsonTree} (hitems : v.items? = some items)
      (h : List.Forall₂ (ShownBy C) items trees) : ShownBy C v (.array trees)
  | parts {v : Value} {parts : List (String × Value)} {own members : List (String × JsonTree)}
      (hparts : v.Parts C parts) (hown : own.Subperm members)
      (hnames : parts.map (·.1) = own.map (·.1))
      (h : List.Forall₂ (ShownBy C) (parts.map (·.2)) (own.map (·.2))) :
      ShownBy C v (.object members)

/-- What of a value is written with it: items, the last part of each name, and the value of a
member. -/
inductive Keeps (C : Classes) : Value → Value → Prop
  | item {v u : Value} {items : List Value} (hitems : v.items? = some items) (hu : u ∈ items) :
      Keeps C v u
  | part {v u : Value} {name : String} {parts : List (String × Value)} (hparts : v.Parts C parts)
      (hlast : Table.get? name parts.reverse = some u) : Keeps C v u
  | member {enumeration name : String} {mixin : EnumMixin} {value : Value} :
      Keeps C (.member enumeration name mixin value) value

/-- Whether something is written with a value, at any depth. -/
def Writes (C : Classes) : Value → Value → Prop := Relation.ReflTransGen (Keeps C)

variable {C : Classes} {v u : Value}

/-- A value has its parts in one way. -/
theorem Parts.unique {parts others : List (String × Value)} (h : v.Parts C parts)
    (hother : v.Parts C others) : parts = others := by
  cases h with
  | dict entries =>
    cases hother
    rfl
  | record hshape hvalue =>
    cases hother with
    | record hagain hother =>
      obtain rfl := Except.ok.inj (hshape.symm.trans hagain)
      refine List.map_congr_left fun f hf => ?_
      rw [Option.some.inj ((hvalue f hf).symm.trans (hother f hf))]

/-- Of a sequence its items are kept. -/
theorem keeps_iff_of_items {items : List Value} (hitems : v.items? = some items) :
    v.Keeps C u ↔ u ∈ items := by
  constructor
  · rintro (⟨hagain, hu⟩ | ⟨hparts, hlast⟩ | _)
    · rw [hitems] at hagain
      rwa [Option.some.inj hagain]
    · cases hparts <;> cases hitems
    · cases hitems
  · exact .item hitems

/-- Of a dictionary or record the last part of each name is kept. -/
theorem keeps_iff_of_parts {parts : List (String × Value)} (hparts : v.Parts C parts) :
    v.Keeps C u ↔ ∃ name, Table.get? name parts.reverse = some u := by
  constructor
  · rintro (⟨hitems, hu⟩ | ⟨hagain, hlast⟩ | _)
    · cases hparts <;> cases hitems
    · rw [hparts.unique hagain]
      exact ⟨_, hlast⟩
    · cases hparts
  · rintro ⟨name, hlast⟩
    exact .part hparts hlast

/-- Of a member of an enumeration its value is kept. -/
theorem keeps_member_iff {enumeration name : String} {mixin : EnumMixin} {value : Value} :
    (Value.member enumeration name mixin value).Keeps C u ↔ u = value := by
  constructor
  · rintro (⟨hitems, hu⟩ | ⟨hparts, hlast⟩ | _)
    · cases hitems
    · cases hparts
    · rfl
  · rintro rfl
    exact .member

/-- A scalar has nothing to keep. -/
theorem not_keeps_of_scalar {j : Json} (hscalar : v.scalarJson? = some j) : ¬v.Keeps C u := by
  rintro (⟨hitems, hu⟩ | ⟨hparts, hlast⟩ | _)
  · cases v <;> cases hscalar <;> cases hitems
  · cases hparts <;> cases hscalar
  · cases hscalar

/-- What is kept is smaller. -/
theorem Keeps.sizeOf_lt (h : v.Keeps C u) : sizeOf u < sizeOf v := by
  cases h with
  | @item _ _ items hitems hu =>
    have hsize := List.sizeOf_lt_of_mem hu
    cases v <;> cases hitems <;>
      simp only [list.sizeOf_spec, tuple.sizeOf_spec, set.sizeOf_spec] <;> omega
  | @part _ _ name parts hparts hlast =>
    have hmem : (name, u) ∈ parts := List.mem_reverse.mp (Table.mem_of_get? hlast)
    cases hparts with
    | dict entries =>
      obtain ⟨entry, hentry, heq⟩ := List.mem_map.mp hmem
      have hsize := List.sizeOf_lt_of_mem hentry
      obtain ⟨key, value⟩ := entry
      cases heq
      simp only [Prod.mk.sizeOf_spec] at hsize
      simp only [dict.sizeOf_spec]
      omega
    | @record className attributes shape value hshape hvalue =>
      obtain ⟨f, hf, heq⟩ := List.mem_map.mp hmem
      have hsize := List.sizeOf_lt_of_mem (Table.mem_of_get? (hvalue f hf))
      cases heq
      simp only [Prod.mk.sizeOf_spec] at hsize
      simp only [record.sizeOf_spec]
      omega
  | member =>
    simp only [member.sizeOf_spec]
    omega

end Value

namespace Body

variable {C : Classes} {v u : Value} {j : Json}

/-- The JSON value that a value is written as, and the null value for one that is not written. -/
def form (C : Classes) (v : Value) : Json := (toJson C v).toOption.getD .null

/-- Whether a value is written. -/
def IsWritten (C : Classes) (v : Value) : Prop := toJson C v = .ok (form C v)

/-- A value that is written as a JSON value is so as this one. -/
theorem form_of_toJson (h : toJson C v = .ok j) : form C v = j := by
  rw [form, h]
  rfl

/-- The members that parts are written as behind a tag: of several parts of one name the last one.
-/
def writtenMembers (C : Classes) (tag : List (String × Json)) (parts : List (String × Value)) :
    Table String Json := Table.ofBindings (tag ++ parts.map fun p => (p.1, form C p.2))

/-- The forms that written values take. -/
inductive Forms (C : Classes) : Value → Json → Prop
  | scalar {v : Value} {j : Json} (hscalar : v.scalarJson? = some j) : Forms C v j
  | member {enumeration name : String} {mixin : EnumMixin} {value : Value} (h : IsWritten C value) :
      Forms C (.member enumeration name mixin value) (form C value)
  | items {v : Value} {items : List Value} (hitems : v.items? = some items)
      (h : ∀ u ∈ items, IsWritten C u) : Forms C v (.array (items.map (form C)))
  | parts {v : Value} {parts : List (String × Value)} {tag : List (String × Json)}
      (hparts : v.Parts C parts) (htag : ∀ m ∈ tag, ∃ s, m.2 = .text s)
      (h : ∀ p ∈ parts, IsWritten C p.2) :
      Forms C v (.object (writtenMembers C tag parts))

/-- Items are written when each of them is. -/
theorem eq_of_itemsToJson {items : List Value} {js : List Json} (h : itemsToJson C items = .ok js) :
    (∀ u ∈ items, IsWritten C u) ∧ js = items.map (form C) := by
  induction items generalizing js with
  | nil =>
    cases h
    simp
  | cons v rest ih =>
    obtain ⟨j, hj, h⟩ := bind_eq_ok_iff.mp h
    obtain ⟨others, hothers, h⟩ := bind_eq_ok_iff.mp h
    cases h
    obtain ⟨hrest, rfl⟩ := ih hothers
    obtain rfl := form_of_toJson hj
    exact ⟨List.forall_mem_cons.mpr ⟨hj, hrest⟩, rfl⟩

/-- A key becomes its own text. -/
theorem eq_of_keyText {key : Value} {text : String} (h : keyText key = .ok text) :
    key.plainText = text := by
  unfold keyText at h
  split at h
  · exact Except.ok.inj h
  · cases h

/-- Entries are written when the value of each of them is, the key by its text. -/
theorem eq_of_entriesToJson {entries : List (Value × Value)} {members after : List (String × Json)}
    (h : entriesToJson C entries members = .ok after) :
    (∀ entry ∈ entries, IsWritten C entry.2) ∧
      after = (entries.map fun entry => (entry.1.plainText, form C entry.2)).foldl
        (fun t m => Table.set m.1 m.2 t) members := by
  induction entries generalizing members with
  | nil =>
    rw [entriesToJson] at h
    cases h
    simp
  | cons entry rest ih =>
    obtain ⟨key, v⟩ := entry
    rw [entriesToJson] at h
    obtain ⟨text, htext, h⟩ := bind_eq_ok_iff.mp h
    obtain ⟨j, hj, h⟩ := bind_eq_ok_iff.mp h
    obtain ⟨hrest, rfl⟩ := ih h
    obtain rfl := eq_of_keyText htext
    obtain rfl := form_of_toJson hj
    exact ⟨List.forall_mem_cons.mpr ⟨hj, hrest⟩, rfl⟩

/-- Fields are written when each of them has an attribute that is. -/
theorem eq_of_writeFields {className : String} {attributes : List (String × Value)}
    {fields : List Field} {value : Field → Value}
    (hvalue : ∀ f v, Table.get? f.name attributes = some v → value f = v)
    {members after : List (String × Json)}
    (h : fields.foldlM (writeField C className attributes) members = .ok after) :
    (∀ f ∈ fields, Table.get? f.name attributes = some (value f)) ∧
      (∀ f ∈ fields, IsWritten C (value f)) ∧
      after = (fields.map fun f => (f.wireName, form C (value f))).foldl
        (fun t m => Table.set m.1 m.2 t) members := by
  induction fields generalizing members with
  | nil =>
    cases h
    simp
  | cons f rest ih =>
    obtain ⟨between, hfirst, h⟩ := bind_eq_ok_iff.mp h
    obtain ⟨hgets, hrest, rfl⟩ := ih h
    rw [writeField, get?_attributesToJson] at hfirst
    cases hget : Table.get? f.name attributes with
    | none =>
      rw [hget] at hfirst
      cases hfirst
    | some v =>
      obtain rfl := hvalue f v hget
      rw [hget, Option.map_some] at hfirst
      obtain ⟨j, hj, hfirst⟩ := bind_eq_ok_iff.mp hfirst
      cases hfirst
      obtain rfl := form_of_toJson hj
      exact ⟨List.forall_mem_cons.mpr ⟨hget, hgets⟩, List.forall_mem_cons.mpr ⟨hj, hrest⟩, rfl⟩

/-- A record is written as its tag and then its fields, each of which is written. -/
theorem forms_record {className : String} {attributes : List (String × Value)}
    (h : toJson C (.record className attributes) = .ok j) :
    Forms C (.record className attributes) j := by
  have hwritten := h
  rw [toJson] at hwritten
  obtain ⟨members, hmembers, hwritten⟩ := bind_eq_ok_iff.mp hwritten
  cases hwritten
  obtain ⟨parent, hparent, hmembers⟩ := bind_eq_ok_iff.mp hmembers
  obtain ⟨shape, hshape, _⟩ := bind_eq_ok_iff.mp hmembers
  have hshape : C.shape className = .ok shape := mapError_eq_ok_iff.mp hshape
  have hfields := (recordMembers_eq_ok_iff hshape (mapError_eq_ok_iff.mp hparent)).mp h
  obtain ⟨value, hvalue⟩ : ∃ value : Field → Value,
      ∀ f v, Table.get? f.name attributes = some v → value f = v :=
    ⟨fun f => (Table.get? f.name attributes).getD .null, fun f v hget => by simp only [hget]; rfl⟩
  obtain ⟨hgets, hfieldsWritten, rfl⟩ := eq_of_writeFields hvalue hfields
  have htag : ∀ m ∈ tagMembers className parent, ∃ s, m.2 = .text s := by
    cases parent <;> simp [tagMembers]
  have hstart : Table.ofBindings (tagMembers className parent) = tagMembers className parent := by
    cases parent <;> rfl
  have hforms := Forms.parts (.record hshape hgets) htag (List.forall_mem_map.mpr hfieldsWritten)
  rw [writtenMembers, Table.ofBindings, List.foldl_append, ← Table.ofBindings, hstart,
    List.map_map] at hforms
  exact hforms

/-- What a value is written as has one of the forms. -/
theorem forms_of_toJson (h : toJson C v = .ok j) : Forms C v j := by
  cases v with
  | null | bool b | number n | text s | uuid u | date d | dateTime t =>
    cases h
    exact .scalar rfl
  | list items | tuple items | set frozen items =>
    rw [toJson] at h
    obtain ⟨js, hjs, h⟩ := bind_eq_ok_iff.mp h
    cases h
    obtain ⟨hitems, rfl⟩ := eq_of_itemsToJson hjs
    exact .items rfl hitems
  | dict entries =>
    rw [toJson] at h
    obtain ⟨members, hmembers, h⟩ := bind_eq_ok_iff.mp h
    cases h
    obtain ⟨hentries, rfl⟩ := eq_of_entriesToJson hmembers
    have htag : ∀ m ∈ ([] : List (String × Json)), ∃ s, m.2 = .text s := List.forall_mem_nil _
    have hforms := Forms.parts (.dict entries) htag (List.forall_mem_map.mpr hentries)
    rw [writtenMembers, List.map_map] at hforms
    exact hforms
  | member enumeration name mixin value =>
    rw [toJson] at h
    obtain rfl := form_of_toJson h
    exact .member h
  | record className attributes => exact forms_record h
  | decimal text | bytes data | opaqueObject => cases h

/-- What is kept of a value that is written is written. -/
theorem isWritten_of_forms (h : Forms C v j) (hu : v.Keeps C u) : IsWritten C u := by
  cases h with
  | scalar hscalar => exact absurd hu (Value.not_keeps_of_scalar hscalar)
  | member hvalue => exact (Value.keeps_member_iff.mp hu) ▸ hvalue
  | items hitems hwritten => exact hwritten u ((Value.keeps_iff_of_items hitems).mp hu)
  | parts hparts htag hwritten =>
    obtain ⟨name, hlast⟩ := (Value.keeps_iff_of_parts hparts).mp hu
    exact hwritten (name, u) (List.mem_reverse.mp (Table.mem_of_get? hlast))

/-- What holds of a value when something holds of it, and the same of all that it keeps, holds when
that something holds of all that is written with it. -/
theorem iff_forall_writes {P own : Value → Prop}
    (hstep : ∀ v, IsWritten C v → (P v ↔ own v ∧ ∀ u, v.Keeps C u → P u)) (h : IsWritten C v) :
    P v ↔ ∀ u, v.Writes C u → own u := by
  induction hsize : sizeOf v using Nat.strongRecOn generalizing v with
  | ind n ih =>
    have hkept : ∀ u, v.Keeps C u → (P u ↔ ∀ w, u.Writes C w → own w) := fun u hu =>
      ih (sizeOf u) (hsize ▸ hu.sizeOf_lt) (isWritten_of_forms (forms_of_toJson h) hu) rfl
    rw [hstep v h]
    constructor
    · rintro ⟨hown, hall⟩ w hw
      obtain rfl | ⟨u, hu, hw⟩ := Relation.ReflTransGen.cases_head hw
      · exact hown
      · exact (hkept u hu).mp (hall u hu) w hw
    · intro hall
      exact ⟨hall v .refl, fun u hu => (hkept u hu).mpr fun w hw => hall w (.head hu hw)⟩

/-- The members that parts are written as have names of their own. -/
theorem distinct_writtenMembers (tag : List (String × Json)) (parts : List (String × Value)) :
    (writtenMembers C tag parts).Distinct :=
  Table.distinct_ofBindings _

/-- A name stands for the last part that has it, and otherwise for the tag. -/
theorem get?_writtenMembers (name : String) (tag : List (String × Json))
    (parts : List (String × Value)) :
    Table.get? name (writtenMembers C tag parts) =
      ((Table.get? name parts.reverse).map (form C)).or (Table.get? name tag.reverse) := by
  rw [writtenMembers, Table.get?_ofBindings, List.reverse_append, Table.get?_append,
    ← List.map_reverse, Table.get?_map]

/-- A scalar is finite when it is no infinite or undefined number. -/
theorem isFinite_scalar_iff (hscalar : v.scalarJson? = some j) :
    j.IsFinite ↔ ∀ x, v = .float x → x.isFinite = true := by
  cases v with
  | number n =>
    cases hscalar
    cases n with
    | int n => exact iff_of_true rfl (by rintro x ⟨⟩)
    | float x =>
      have hfloat : (∀ y, Value.number (.float x) = .float y → y.isFinite = true) ↔
          x.isFinite = true := by simp [Value.float]
      rw [hfloat, Json.IsFinite, Json.finiteOnly]
      by_cases hx : x.isFinite = true <;> simp [hx]
  | null | bool b | text s | uuid u | date d | dateTime t =>
    cases hscalar
    exact iff_of_true rfl (by rintro x ⟨⟩)
  | _ => cases hscalar

/-- What a value is written as is finite when it is no infinite or undefined number and all that it
keeps is written so. -/
theorem isFinite_iff_of_forms (h : Forms C v j) : j.IsFinite ↔
    (∀ x, v = .float x → x.isFinite = true) ∧ ∀ u, v.Keeps C u → (form C u).IsFinite := by
  cases h with
  | scalar hscalar =>
    simpa [Value.not_keeps_of_scalar hscalar] using isFinite_scalar_iff hscalar
  | member hvalue => simp [Value.keeps_member_iff, Value.float]
  | items hitems hwritten =>
    have hother : ∀ x, v ≠ .float x := by
      rintro x rfl
      cases hitems
    simp [Json.isFinite_array_iff, Value.keeps_iff_of_items hitems, hother]
  | @parts _ parts tag hparts htag hwritten =>
    have hother : ∀ x, v ≠ .float x := by
      rintro x rfl
      cases hparts
    rw [Json.isFinite_object_iff]
    constructor
    · intro hmembers
      refine ⟨fun x hx => absurd hx (hother x), fun u hu => ?_⟩
      obtain ⟨name, hlast⟩ := (Value.keeps_iff_of_parts hparts).mp hu
      have hfound := get?_writtenMembers (C := C) name tag parts
      rw [hlast, Option.map_some, Option.some_or] at hfound
      exact hmembers _ (Table.mem_of_get? hfound)
    · rintro ⟨_, hkept⟩ ⟨name, k⟩ hmember
      have hfound := Table.get?_of_mem (distinct_writtenMembers tag parts) hmember
      rw [get?_writtenMembers, Option.or_eq_some_iff] at hfound
      rcases hfound with hfound | ⟨_, hfound⟩
      · obtain ⟨u, hlast, rfl⟩ := Option.map_eq_some_iff.mp hfound
        exact hkept u (.part hparts hlast)
      · obtain ⟨s, hs⟩ := htag _ (List.mem_reverse.mp (Table.mem_of_get? hfound))
        rw [hs]
        rfl

/-- A sequence is shown by the array that shows its items. -/
theorem shownBy_array_iff {items : List Value} (hitems : v.items? = some items)
    {trees : List JsonTree} :
    v.ShownBy C (.array trees) ↔ List.Forall₂ (Value.ShownBy C) items trees := by
  constructor
  · intro h
    generalize ht : JsonTree.array trees = t at h
    cases h with
    | scalar hscalar => cases v <;> cases hitems <;> cases hscalar
    | member h => cases hitems
    | items hagain h =>
      rw [hitems] at hagain
      cases hagain
      cases ht
      exact h
    | parts hparts => cases ht
  · exact .items hitems

/-- The parts of a record have names of their own, and those of a dictionary when the texts of its
keys are distinct. -/
theorem distinct_parts_iff {parts : List (String × Value)} (hparts : v.Parts C parts) :
    Table.Distinct parts ↔
      ∀ entries, v = .dict entries → (entries.map (·.1.plainText)).Nodup := by
  rw [Table.Distinct, Table.keys]
  cases hparts with
  | dict entries => simp [Function.comp_def]
  | record hshape hvalue =>
    obtain ⟨_, _, hwire⟩ := Classes.shape_eq_ok hshape
    simpa [Function.comp_def] using hwire

/-- Pairs that agree in their names and are related in their values answer one another. -/
theorem exists_of_pairs {α β γ : Type} {R : β → γ → Prop} {xs : List (α × β)} {ys : List (α × γ)}
    (hnames : xs.map (·.1) = ys.map (·.1)) (h : List.Forall₂ R (xs.map (·.2)) (ys.map (·.2))) :
    ∀ x ∈ xs, ∃ y ∈ ys, x.1 = y.1 ∧ R x.2 y.2 := by
  induction xs generalizing ys with
  | nil => simp
  | cons x xs ih =>
    cases ys with
    | nil => cases hnames
    | cons y ys =>
      obtain ⟨hname, hnames⟩ := List.cons.inj hnames
      cases h with
      | cons hfirst h =>
        refine List.forall_mem_cons.mpr ⟨⟨y, List.mem_cons_self, hname, hfirst⟩, fun z hz => ?_⟩
        obtain ⟨w, hw, hzw⟩ := ih hnames h z hz
        exact ⟨w, List.mem_cons_of_mem _ hw, hzw⟩

/-- A value with parts is shown by an object whose members have names of their own when each part is
shown by the member of its name. -/
theorem shownBy_object_iff {parts : List (String × Value)} (hparts : v.Parts C parts)
    {members : List (String × JsonTree)} (hdistinct : Table.Distinct members) :
    v.ShownBy C (.object members) ↔ Table.Distinct parts ∧
      ∀ p ∈ parts, ∃ t, Table.get? p.1 members = some t ∧ p.2.ShownBy C t := by
  constructor
  · intro h
    generalize ht : JsonTree.object members = t at h
    cases h with
    | scalar hscalar => cases hparts <;> cases hscalar
    | member h => cases hparts
    | items hitems h => cases ht
    | @parts _ others own _ hothers hown hnames h =>
      cases ht
      obtain rfl := hparts.unique hothers
      obtain ⟨row, hrow, hsublist⟩ := hown
      have howned : Table.Distinct own :=
        (hrow.map Prod.fst).nodup_iff.mp (hdistinct.sublist (hsublist.map Prod.fst))
      have hpartsDistinct : Table.Distinct parts := by
        rw [Table.Distinct, Table.keys, hnames]
        exact howned
      refine ⟨hpartsDistinct, fun p hp => ?_⟩
      obtain ⟨m, hm, hname, hshown⟩ := exists_of_pairs hnames h p hp
      have hmember : Table.get? m.1 members = some m.2 :=
        Table.get?_of_mem hdistinct ((hrow.mem_iff.mpr hm) |> hsublist.subset)
      exact ⟨m.2, hname ▸ hmember, hshown⟩
  · rintro ⟨hnames, hshown⟩
    have _ : Inhabited JsonTree := ⟨.null⟩
    choose! t ht hshown using hshown
    have hnodup : (parts.map fun p => (p.1, t p)).Nodup := by
      refine List.Nodup.of_map Prod.fst ?_
      rw [List.map_map]
      exact hnames
    have hown : (parts.map fun p => (p.1, t p)).Subperm members := by
      refine List.subperm_of_subset hnodup fun m hm => ?_
      obtain ⟨p, hp, rfl⟩ := List.mem_map.mp hm
      exact Table.mem_of_get? (ht p hp)
    refine .parts hparts hown ?_ ?_
    · simp
    · rw [List.map_map, List.forall₂_map_left_iff, List.forall₂_map_right_iff, List.forall₂_same]
      exact hshown

/-- A member of an enumeration is shown by the tree that shows its value. -/
theorem shownBy_member_iff {enumeration name : String} {mixin : EnumMixin} {value : Value}
    {t : JsonTree} :
    (Value.member enumeration name mixin value).ShownBy C t ↔ value.ShownBy C t := by
  constructor
  · rintro (hscalar | h | hitems | hparts)
    · cases hscalar
    · exact h
    · cases hitems
    · cases hparts
  · exact .member

/-- What a value is written as shows all of it when it is no dictionary with two keys of one text
and what it keeps is shown so. -/
theorem shownBy_iff_of_forms (h : Forms C v j) : v.ShownBy C j.tree ↔
    (∀ entries, v = .dict entries → (entries.map (·.1.plainText)).Nodup) ∧
      ∀ u, v.Keeps C u → u.ShownBy C (form C u).tree := by
  cases h with
  | scalar hscalar =>
    have hother : ∀ entries, v ≠ .dict entries := by
      rintro entries rfl
      cases hscalar
    simp [Value.not_keeps_of_scalar hscalar, hother, Value.ShownBy.scalar hscalar]
  | member hvalue => simp [Value.keeps_member_iff, shownBy_member_iff]
  | items hitems hwritten =>
    have hother : ∀ entries, v ≠ .dict entries := by
      rintro entries rfl
      cases hitems
    simp [Json.tree_array, shownBy_array_iff hitems, Value.keeps_iff_of_items hitems, hother,
      List.forall₂_map_right_iff, List.forall₂_same]
  | @parts _ parts tag hparts htag hwritten =>
    have htrees : Table.Distinct ((writtenMembers C tag parts).map fun m => (m.1, m.2.tree)) := by
      rw [Table.Distinct, Table.keys, List.map_map]
      exact distinct_writtenMembers tag parts
    rw [Json.tree_object, shownBy_object_iff hparts htrees, distinct_parts_iff hparts]
    refine and_congr_right fun hentries => ?_
    have hnames : Table.Distinct parts := (distinct_parts_iff hparts).mpr hentries
    -- As no two parts share a name, each of them is kept and has its member.
    have hfound {name : String} {u : Value} (hlast : Table.get? name parts.reverse = some u) :
        Table.get? name ((writtenMembers C tag parts).map fun m => (m.1, m.2.tree)) =
          some (form C u).tree := by
      rw [Table.get?_map, get?_writtenMembers, hlast]
      rfl
    constructor
    · intro hshown u hu
      obtain ⟨name, hlast⟩ := (Value.keeps_iff_of_parts hparts).mp hu
      obtain ⟨t, ht, hshown⟩ :=
        hshown (name, u) (List.mem_reverse.mp (Table.mem_of_get? hlast))
      rw [hfound hlast] at ht
      rwa [Option.some.inj ht]
    · intro hkept p hp
      have hlast : Table.get? p.1 parts.reverse = some p.2 := by
        rw [Table.get?_reverse hnames]
        exact Table.get?_of_mem hnames hp
      exact ⟨_, hfound hlast, hkept p.2 (.part hparts hlast)⟩

/-- The text of a value is a JSON text exactly when no infinite or undefined number is written with
it, and shows all of it exactly when no dictionary that is written with it has two keys of one
text. -/
theorem encode_strict_whole {C : Classes} {v : Value} {text : String} (h : encode C v = .ok text) :
    ((∃ t, JsonGrammar.IsText text.toList t) ↔
      ∀ x : Double, v.Writes C (.float x) → x.isFinite = true) ∧
    ∀ t, JsonGrammar.IsText text.toList t →
      (v.ShownBy C t ↔ ∀ entries : List (Value × Value), v.Writes C (.dict entries) →
        (entries.map (·.1.plainText)).Nodup) := by
  obtain ⟨j, hj, htext⟩ := bind_eq_ok_iff.mp h
  obtain rfl := form_of_toJson hj
  split at htext
  case isFalse => cases htext
  obtain rfl := Except.ok.inj htext
  have hwritten : IsWritten C v := hj
  have hfinite : (form C v).IsFinite ↔ ∀ x : Double, v.Writes C (.float x) → x.isFinite = true := by
    rw [iff_forall_writes (P := fun v => (form C v).IsFinite)
      (fun v hv => isFinite_iff_of_forms (forms_of_toJson hv)) hwritten]
    exact ⟨fun hall x hx => hall _ hx x rfl, by rintro hall _ hx x rfl; exact hall x hx⟩
  have hshown : v.ShownBy C (form C v).tree ↔ ∀ entries : List (Value × Value),
      v.Writes C (.dict entries) → (entries.map (·.1.plainText)).Nodup := by
    rw [iff_forall_writes (P := fun v => v.ShownBy C (form C v).tree)
      (fun v hv => shownBy_iff_of_forms (forms_of_toJson hv)) hwritten]
    exact ⟨fun hall entries hx => hall _ hx entries rfl,
      by rintro hall _ hx entries rfl; exact hall entries hx⟩
  constructor
  · rw [← hfinite]
    constructor
    · rintro ⟨t, ht⟩
      exact (JsonGrammar.isText_toBodyText_iff.mp ht).1
    · intro h
      exact ⟨_, JsonGrammar.isText_toBodyText_iff.mpr ⟨h, rfl⟩⟩
  · intro t ht
    rw [(JsonGrammar.isText_toBodyText_iff.mp ht).2]
    exact hshown

/-- An undefined number leaves no JSON text, and two keys of one text lose an entry. -/
theorem encode_strict_whole_levels :
    let level : Value := .dict [(.text "level", .float .nan)]
    let ones : Value := .dict [(.int 1, .text "a"), (.text "1", .text "b")]
    (encode {} level = .ok "\x7b\"level\": NaN\x7d" ∧
      ¬∃ t, JsonGrammar.IsText "\x7b\"level\": NaN\x7d".toList t) ∧
    encode {} ones = .ok "\x7b\"1\": \"b\"\x7d" ∧
      ∃ t, JsonGrammar.IsText "\x7b\"1\": \"b\"\x7d".toList t ∧ ¬ones.ShownBy {} t := by
  intro level ones
  have hlevel : encode {} level = .ok "\x7b\"level\": NaN\x7d" := rfl
  have hones : encode {} ones = .ok "\x7b\"1\": \"b\"\x7d" := rfl
  have hlast : Table.get? "level" [("level", Value.float .nan)].reverse = some (.float .nan) := rfl
  have hnan : level.Writes {} (.float .nan) := .single (.part (.dict _) hlast)
  have htext : JsonGrammar.IsText "\x7b\"1\": \"b\"\x7d".toList (.object [("1", .text "b")]) :=
    JsonGrammar.isText_toBodyText_iff (j := .object [("1", .text "b")]).mpr ⟨rfl, rfl⟩
  refine ⟨⟨hlevel, fun hdenotes => ?_⟩, hones, _, htext, fun hshown => ?_⟩
  · cases (encode_strict_whole hlevel).1.mp hdenotes .nan hnan
  · exact absurd (((encode_strict_whole hones).2 _ htext).mp hshown _ .refl) (by decide)

end Body

end HttpContract
