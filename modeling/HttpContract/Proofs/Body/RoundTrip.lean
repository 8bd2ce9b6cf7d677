import HttpContract.Proofs.Body.Inhabits
import HttpContract.Proofs.Body.Reading
import HttpContract.Proofs.Constraints
import HttpContract.Proofs.Records

/-!
# Reading back what is written

A value of a type is written as a JSON value that the same type reads as this value. The proof goes
along the structure of the value: lists of items, entries and fields are read back when each of
their values is.
-/

namespace HttpContract

namespace Body

variable {C : Classes}

/-- A scalar value is written as a JSON value that its type reads as this value. -/
theorem exists_readScalar {type : Scalar} {v : Value} (hv : type.Holds v) :
    ∃ j, toJson C v = .ok j ∧ j ≠ .null ∧ ∀ path, readScalar path type j = .ok v := by
  cases hv with
  | text s => exact ⟨.text s, rfl, nofun, fun path => rfl⟩
  | integer n => exact ⟨.number (.int n), rfl, nofun, fun path => rfl⟩
  | @number x hfinite =>
    refine ⟨.number (.float x), rfl, nofun, fun path => ?_⟩
    simp [readScalar, readNumber, hfinite, Value.float]
  | boolean b => exact ⟨.bool b, rfl, nofun, fun path => rfl⟩
  | @uuid u hread =>
    refine ⟨.text u.toText, rfl, nofun, fun path => ?_⟩
    simp [readScalar, readText, hread]
  | @date d hread =>
    refine ⟨.text d.toText, rfl, nofun, fun path => ?_⟩
    simp [readScalar, readText, hread]
  | @dateTime t hread =>
    refine ⟨.text t.toText, rfl, nofun, fun path => ?_⟩
    simp [readScalar, readText, hread]

end Body

/-- No value among the members of an enumeration equals one in front of it. -/
theorem Enumeration.pairwise_members (e : Enumeration) :
    e.members.Pairwise fun m later => m.2.same later.2 = false := by
  unfold members
  have hfold : ∀ (names : List (String × Value)) {kept : List (String × Value)},
      kept.Pairwise (fun m later => m.2.same later.2 = false) →
      (names.foldl (fun kept named =>
        if kept.any fun m => m.2.same named.2 then kept else kept ++ [named])
        kept).Pairwise fun m later => m.2.same later.2 = false := by
    intro names
    induction names with
    | nil => exact fun h => h
    | cons named rest ih =>
      intro kept h
      refine ih ?_
      dsimp only
      split
      · exact h
      · rename_i hnew
        refine List.pairwise_append.mpr
          ⟨h, List.pairwise_singleton _ _, fun m hm later hlater => ?_⟩
        rw [List.mem_singleton.mp hlater]
        simpa using fun hsame => hnew (List.any_eq_true.mpr ⟨m, hm, hsame⟩)
  exact hfold e.names List.Pairwise.nil

/-- Looking for a value among members finds the member that has it. -/
theorem find?_same {members : List (String × Value)}
    (hpairwise : members.Pairwise fun m later => m.2.same later.2 = false)
    {m : String × Value} (hm : m ∈ members) (hself : m.2.same m.2 = true) :
    members.find? (fun (_, value) => value.same m.2) = some m := by
  induction hpairwise with
  | nil => cases hm
  | @cons first rest hfirst _ ih =>
    rcases List.mem_cons.mp hm with rfl | hm
    · exact List.find?_cons_of_pos hself
    · rw [List.find?_cons_of_neg (by simp [hfirst m hm])]
      exact ih hm

namespace Body

variable {C : Classes}

/-- A value that may be listed is written as a JSON value that stands for it, and equals itself. -/
theorem exists_ofJson {v : Value} (hv : v.IsListable) :
    ∃ j, toJson C v = .ok j ∧ j ≠ .null ∧ Value.ofJson j = v ∧ v.same v = true := by
  cases hv with
  | text s => exact ⟨.text s, rfl, by simp, rfl, by simp [Value.same, Value.asText?]⟩
  | bool b =>
    refine ⟨.bool b, rfl, by simp, rfl, ?_⟩
    simp [Value.same, Value.countsAs, Value.asNumber?, Number.same, Number.position?]
  | int n =>
    refine ⟨.number (.int n), rfl, by simp, rfl, ?_⟩
    simp [Value.same, Value.countsAs, Value.asNumber?, Number.same, Number.position?]
  | @float x hfinite =>
    refine ⟨.number (.float x), rfl, by simp, rfl, ?_⟩
    cases x with
    | finite negative m e =>
      simp [Value.same, Value.countsAs, Value.asNumber?, Number.same, Number.position?,
        Double.toRat?]
    | infinite negative | nan => cases hfinite

/-- A JSON value that is the value of a member and equals itself is read as this member. -/
theorem readMember_own {name path : String} {e : Enumeration} {m : String × Value}
    (hm : m ∈ e.members) {j : Json} (hown : Value.ofJson j = m.2) (hself : m.2.same m.2 = true) :
    readMember name e path j = .ok (memberValue name e m) := by
  unfold readMember
  rw [hown, find?_same e.pairwise_members hm hself]

/-- A member of an enumeration is written as a JSON value that is read as this member. -/
theorem exists_readMember (name : String) {e : Enumeration} {m : String × Value}
    (hvalues : ∀ m ∈ e.members, m.2.IsListable) (hm : m ∈ e.members) :
    ∃ j, toJson C (memberValue name e m) = .ok j ∧ j ≠ .null ∧
      ∀ path, readMember name e path j = .ok (memberValue name e m) := by
  obtain ⟨j, hj, hnull, hofJson, hself⟩ := exists_ofJson (C := C) (hvalues m hm)
  exact ⟨j, by rw [memberValue, toJson, hj], hnull, fun path => readMember_own hm hofJson hself⟩

/-- Items that are read back one by one are read back together. -/
theorem exists_readItems {item : TypeInfo} {constraints : List Constraint} {items : List Value}
    (h : ∀ v ∈ items, ∃ j, toJson C v = .ok j ∧ ∀ path, read C j item path constraints = .ok v) :
    ∃ js, itemsToJson C items = .ok js ∧
      ∀ path index, readItems item path constraints index (itemReaders C js) = .ok items := by
  induction items with
  | nil => exact ⟨[], rfl, fun _ _ => rfl⟩
  | cons v rest ih =>
    obtain ⟨j, hj, hread⟩ := h v List.mem_cons_self
    obtain ⟨js, hjs, hreads⟩ := ih fun w hw => h w (List.mem_cons_of_mem _ hw)
    refine ⟨j :: js, ?_, fun path index => ?_⟩
    · rw [itemsToJson, hj, hjs]
      rfl
    · rw [itemReaders, readItems, hread, hreads]
      rfl

/-- Items are written as an array from any container. -/
theorem toJson_hold (container : Container) (items : List Value) :
    toJson C (container.hold items) = (itemsToJson C items).map .array := by
  cases container <;> rw [Container.hold, toJson] <;> cases itemsToJson C items <;> rfl

/-- Items that fit into a container are held by it. -/
theorem contain_of_fits {container : Container} {items : List Value}
    (hfits : container.Fits C items) : contain C container items = .ok (container.hold items) := by
  cases container with
  | list | tuple => rfl
  | set | frozenset =>
    obtain ⟨hhash, hdistinct⟩ := hfits
    simp [contain, hhash, hdistinct, Container.hold]

/-- Entries with distinct keys that are read back one by one are read back together. -/
theorem exists_readEntries {item : TypeInfo} {entries : Table String Value}
    (hkeys : entries.Distinct)
    (h : ∀ entry ∈ entries, ∃ j, toJson C entry.2 = .ok j ∧
      ∀ path, read C j item path [] = .ok entry.2) :
    ∃ js : List (String × Json),
      (∀ members : List (String × Json), (∀ key ∈ Table.keys entries, key ∉ Table.keys members) →
        entriesToJson C (entries.map fun entry => (.text entry.1, entry.2)) members =
          .ok (members ++ js)) ∧
      ∀ path, readEntries item path (memberReaders C js) =
        .ok (entries.map fun entry => (.text entry.1, entry.2)) := by
  induction entries with
  | nil => exact ⟨[], fun members _ => by simp [entriesToJson], fun _ => rfl⟩
  | cons entry rest ih =>
    obtain ⟨key, v⟩ := entry
    rw [Table.Distinct, Table.keys, List.map_cons, List.nodup_cons] at hkeys
    obtain ⟨j, hj, hread⟩ := h (key, v) List.mem_cons_self
    obtain ⟨js, hjs, hreads⟩ :=
      ih hkeys.2 fun entry hentry => h entry (List.mem_cons_of_mem _ hentry)
    refine ⟨(key, j) :: js, fun members hmembers => ?_, fun path => ?_⟩
    · have hnew : key ∉ Table.keys members := hmembers key (by simp [Table.keys])
      have hrest : ∀ k ∈ Table.keys rest, k ∉ Table.keys (members ++ [(key, j)]) := by
        intro k hk hmem
        rw [Table.keys, List.map_append, List.mem_append] at hmem
        rcases hmem with hmem | hmem
        · exact hmembers k (List.mem_cons_of_mem _ hk) hmem
        · rw [List.map_singleton, List.mem_singleton] at hmem
          exact hkeys.1 (hmem ▸ hk)
      have hkey : keyText (.text key) = .ok key := rfl
      rw [List.map_cons, entriesToJson, hkey, hj]
      simp only [bind, Except.bind]
      rw [Table.set_of_notMem hnew, hjs _ hrest, List.append_assoc]
      rfl
    · rw [memberReaders, readEntries, hread, hreads]
      rfl

/-- The JSON forms of attributes are those of their values. -/
theorem get?_attributesToJson (name : String) (attributes : List (String × Value)) :
    Table.get? name (attributesToJson C attributes) =
      (Table.get? name attributes).map (toJson C) := by
  have hmap : attributesToJson C attributes =
      attributes.map fun entry => (entry.1, toJson C entry.2) := by
    induction attributes with
    | nil => rfl
    | cons entry rest ih =>
      rw [attributesToJson, ih]
      rfl
  rw [hmap, Table.get?_map]

/-- One more field of a record is written. -/
def writeField (C : Classes) (className : String) (attributes : List (String × Value))
    (members : List (String × Json)) (f : Field) : Except Failure (List (String × Json)) :=
  match Table.get? f.name (attributesToJson C attributes) with
  | some written => do return Table.set f.wireName (← written) members
  | none => .error (.fault (.noOperation className f.name))

/-- Fields with distinct names for clients whose values are read back one by one are read back
together. -/
theorem exists_readFields (className : String) {fields : List Field}
    {attributes : List (String × Value)} {value : Field → Value}
    (hwire : (fields.map (·.wireName)).Nodup)
    (hvalue : ∀ f ∈ fields, Table.get? f.name attributes = some (value f))
    (h : ∀ f ∈ fields, ∃ j, toJson C (value f) = .ok j ∧
      ∀ path, read C j f.type path [] = .ok (value f)) :
    ∃ js : Table String Json, Table.keys js = fields.map (·.wireName) ∧
      (∀ members : Table String Json, (∀ f ∈ fields, f.wireName ∉ Table.keys members) →
        fields.foldlM (writeField C className attributes) members = .ok (members ++ js)) ∧
      ∀ path readers, (∀ p ∈ js, Table.get? p.1 readers = some (read C p.2)) →
        readFields path readers fields = .ok (fields.map fun f => (f.initName, value f)) := by
  induction fields with
  | nil => exact ⟨[], rfl, fun members _ => by simp; rfl, fun _ _ _ => rfl⟩
  | cons f rest ih =>
    rw [List.map_cons, List.nodup_cons] at hwire
    obtain ⟨j, hj, hread⟩ := h f List.mem_cons_self
    obtain ⟨js, hkeys, hjs, hreads⟩ := ih hwire.2
      (fun g hg => hvalue g (List.mem_cons_of_mem _ hg))
      fun g hg => h g (List.mem_cons_of_mem _ hg)
    refine ⟨(f.wireName, j) :: js, ?_, fun members hmembers => ?_, fun path readers hreaders => ?_⟩
    · rw [List.map_cons, ← hkeys]
      rfl
    · have hnew : f.wireName ∉ Table.keys members := hmembers f List.mem_cons_self
      have hrest : ∀ g ∈ rest, g.wireName ∉ Table.keys (members ++ [(f.wireName, j)]) := by
        intro g hg hmem
        rw [Table.keys, List.map_append, List.mem_append] at hmem
        rcases hmem with hmem | hmem
        · exact hmembers g (List.mem_cons_of_mem _ hg) hmem
        · rw [List.map_singleton, List.mem_singleton] at hmem
          exact hwire.1 (List.mem_map.mpr ⟨g, hg, hmem⟩)
      have hfirst : writeField C className attributes members f =
          .ok (members ++ [(f.wireName, j)]) := by
        rw [writeField, get?_attributesToJson, hvalue f List.mem_cons_self, Option.map_some, hj,
          ← Table.set_of_notMem hnew]
        rfl
      rw [List.foldlM_cons, hfirst]
      refine (hjs _ hrest).trans ?_
      rw [List.append_assoc]
      rfl
    · rw [readFields, hreaders _ List.mem_cons_self]
      simp only [hread, bind, Except.bind]
      rw [hreads path readers fun p hp => hreaders p (List.mem_cons_of_mem _ hp)]
      rfl

/-- The member that tells the variant which a record is written as. -/
def tagMembers (className : String) : Option Hierarchy → Table String Json
  | none => []
  | some h => [(h.discriminator, .text ((h.nameOf? className).getD className))]

/-- A record is written as its tag and then its fields. -/
theorem recordMembers_eq_ok_iff {className : String} {attributes : List (String × Value)}
    {shape : Shape} {parent : Option Hierarchy} (hshape : C.shape className = .ok shape)
    (hparent : C.parent className = .ok parent) {members : List (String × Json)} :
    toJson C (.record className attributes) = .ok (.object members) ↔
      shape.fields.foldlM (writeField C className attributes) (tagMembers className parent) =
        .ok members := by
  have hrecord : recordMembers C className (attributesToJson C attributes) =
      shape.fields.foldlM (writeField C className attributes) (tagMembers className parent) := by
    rw [recordMembers, hparent, hshape]
    cases parent <;> rfl
  rw [toJson, hrecord]
  cases shape.fields.foldlM (writeField C className attributes) (tagMembers className parent) <;>
    simp [bind, Except.bind, pure, Except.pure]

/-- Writing fields keeps the members that have other names. -/
theorem get?_foldlM_writeField {className key : String} {attributes : List (String × Value)}
    {fields : List Field} (hkey : ∀ f ∈ fields, f.wireName ≠ key)
    {members after : List (String × Json)}
    (h : fields.foldlM (writeField C className attributes) members = .ok after) :
    Table.get? key after = Table.get? key members := by
  induction fields generalizing members with
  | nil =>
    cases h
    rfl
  | cons f rest ih =>
    obtain ⟨between, hfirst, h⟩ := bind_eq_ok_iff.mp h
    rw [ih (fun g hg => hkey g (List.mem_cons_of_mem _ hg)) h]
    unfold writeField at hfirst
    split at hfirst
    · obtain ⟨j, _, hfirst⟩ := bind_eq_ok_iff.mp hfirst
      cases hfirst
      rw [Table.get?_set, if_neg (Ne.symm (hkey f List.mem_cons_self))]
    · cases hfirst

/-- A record whose fields are read back is read back itself. -/
theorem exists_readRecord (hC : C.WellFormed) (hcurrent : C.Current)
    (hdeclared : C.HierarchiesDeclared) {name : String} {shape : Shape}
    {given attributes : List (String × Value)} {value : Field → Value}
    (hplain : C.isModel name = false) (hshape : C.shape name = .ok shape)
    (hmade : C.construct shape given = .ok (.record name attributes))
    (hvalue : ∀ f ∈ shape.fields, Table.get? f.name attributes = some (value f))
    (h : ∀ f ∈ shape.fields, ∃ j, toJson C (value f) = .ok j ∧
      ∀ path, read C j f.type path [] = .ok (value f)) :
    ∃ members, toJson C (.record name attributes) = .ok (.object members) ∧
      ∀ path, readRecord C shape (memberReaders C members) path =
        .ok (.record name attributes) := by
  obtain ⟨_, _, hwire⟩ := Classes.shape_eq_ok hshape
  obtain ⟨parent, hparent⟩ := Classes.exists_parent hdeclared name
  obtain ⟨js, hkeys, hwritten, hread⟩ := exists_readFields name hwire hvalue h
  have hapart : ∀ f ∈ shape.fields, f.wireName ∉ Table.keys (tagMembers name parent) := by
    intro f hf hmem
    cases parent with
    | none => cases hmem
    | some hierarchy =>
      obtain ⟨hname, base, hbase⟩ := Classes.exists_hierarchy_of_parent hparent
      refine Classes.wireName_ne_discriminator hcurrent hbase hname hshape hf ?_
      simpa [tagMembers, Table.keys] using hmem
  refine ⟨tagMembers name parent ++ js,
    (recordMembers_eq_ok_iff hshape hparent).mpr (hwritten _ hapart), fun path => ?_⟩
  have hfields : readFields path (memberReaders C (tagMembers name parent ++ js)) shape.fields =
      .ok (shape.fields.map fun f => (f.initName, value f)) := by
    refine hread path _ fun p hp => ?_
    have hkeys : js.map (·.1) = shape.fields.map (·.wireName) := hkeys
    have hdistinct : Table.Distinct (tagMembers name parent ++ js) := by
      rw [Table.Distinct, Table.keys, List.map_append, hkeys]
      refine List.nodup_append.mpr ⟨?_, hwire, ?_⟩
      · cases parent <;> simp [tagMembers]
      · rintro key hkey _ hother rfl
        obtain ⟨f, hf, rfl⟩ := List.mem_map.mp hother
        exact hapart f hf hkey
    rw [get?_memberReaders, Table.get?_of_mem hdistinct (List.mem_append_right _ hp)]
    rfl
  rw [readRecord, hfields]
  exact Classes.construct_again hC hplain hshape hmade hvalue

/-- A record that is read back as one of a base's variants is read back at the base. -/
theorem exists_readVariant (hC : C.WellFormed) (hcurrent : C.Current) {base tag name : String}
    {h : Hierarchy} {attributes : List (String × Value)} {nullable : Bool} {notes : List Note}
    {constraints : List Constraint} (hh : C.hierarchy base = .ok h)
    (htag : (tag, name) ∈ h.variants)
    (honly : ∀ a ∈ (C.ancestry name).tail, C.isPolymorphic a = true → a = base)
    (hrecord : ∃ j, toJson C (.record name attributes) = .ok j ∧
      ∀ path, read C j (.leaf (.record name) false []) path [] = .ok (.record name attributes)) :
    ∃ j, toJson C (.record name attributes) = .ok j ∧
      ∀ path, read C j (.leaf (.polymorphic base) nullable notes) path constraints =
        .ok (.record name attributes) := by
  obtain ⟨j, hj, hread⟩ := hrecord
  obtain ⟨members, shape, rfl, hshape, _⟩ := exists_members_of_read_record (hread "")
  refine ⟨.object members, hj, fun path => ?_⟩
  have hvariants := hcurrent.variantsDeclared hh
  have hparent := Classes.parent_of_variant hC hcurrent hh htag honly
  have hname : h.nameOf? name = some tag := hvariants.nameOf?_eq htag
  -- The discriminator is written in front, and no field of the record is called like it.
  have hwritten := (recordMembers_eq_ok_iff hshape hparent).mp hj
  have hapart : ∀ f ∈ shape.fields, f.wireName ≠ h.discriminator := fun f hf =>
    Classes.wireName_ne_discriminator hcurrent hh (by rw [hname]; rfl) hshape hf
  have hfound : Table.get? h.discriminator members = some (.text tag) := by
    rw [get?_foldlM_writeField hapart hwritten]
    simp [tagMembers, Table.get?, hname]
  rw [read_polymorphic, readVariant_of_tag hh hfound (hvariants.variant?_eq htag) hshape]
  obtain ⟨_, other, heq, hother, hreadRecord⟩ := exists_members_of_read_record (hread path)
  cases heq
  rw [hshape] at hother
  cases hother
  exact hreadRecord

end Body

/-- Whatever a type holds is written as a JSON value that the type reads as the same value again. -/
theorem Classes.Inhabits.exists_read {C : Classes} (hC : C.WellFormed) (hcurrent : C.Current)
    (hdeclared : C.HierarchiesDeclared) {type : TypeInfo} {constraints : List Constraint}
    {v : Value} (hv : C.Inhabits type constraints v) :
    ∃ j, Body.toJson C v = .ok j ∧ ∀ path, Body.read C j type path constraints = .ok v := by
  induction hv with
  | @null type constraints hnullable =>
    refine ⟨.null, rfl, fun path => ?_⟩
    rw [Body.read_null, if_pos hnullable]
  | @scalar type nullable notes constraints v hv hkept =>
    obtain ⟨j, hj, hnull, hread⟩ := Body.exists_readScalar (C := C) hv
    refine ⟨j, hj, fun path => ?_⟩
    rw [Body.read_leaf hnull rfl, Body.readLeaf, hread]
    by_cases htakes : Body.takesConstraints type = true
    · simp only [bind, Except.bind, htakes, if_true]
      exact applyConstraints_place (hkept htakes) path
    · simp only [bind, Except.bind, htakes]
      rfl
  | @member name nullable notes constraints e m he hvalues hm =>
    obtain ⟨j, hj, hnull, hread⟩ := Body.exists_readMember (C := C) name hvalues hm
    refine ⟨j, hj, fun path => ?_⟩
    rw [Body.read_leaf hnull rfl, Body.readLeaf, he]
    exact hread path
  | @array container item nullable notes constraints items hfits _ ih =>
    obtain ⟨js, hjs, hread⟩ := Body.exists_readItems ih
    refine ⟨.array js, by rw [Body.toJson_hold, hjs]; rfl, fun path => ?_⟩
    rw [Body.read_array, hread]
    exact Body.contain_of_fits hfits
  | @map item nullable notes constraints entries hkeys _ ih =>
    obtain ⟨js, hjs, hread⟩ := Body.exists_readEntries hkeys ih
    refine ⟨.object js, ?_, fun path => ?_⟩
    · rw [Body.toJson, hjs [] (by simp [Table.keys])]
      rfl
    · rw [Body.read_map, hread]
      rfl
  | @record name nullable notes constraints shape given attributes value hplain hshape hmade
      hvalue _ ih =>
    obtain ⟨members, hmembers, hread⟩ :=
      Body.exists_readRecord hC hcurrent hdeclared hplain hshape hmade hvalue ih
    refine ⟨.object members, hmembers, fun path => ?_⟩
    rw [Body.read_record, hshape]
    exact hread path
  | @variant base nullable notes constraints h tag name attributes hh htag honly _ ih =>
    exact Body.exists_readVariant hC hcurrent hh htag honly ih

end HttpContract
