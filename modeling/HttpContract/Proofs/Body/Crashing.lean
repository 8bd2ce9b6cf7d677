import HttpContract.Proofs.Body.Reading
import HttpContract.Proofs.Constraints
import HttpContract.Proofs.Gathering

/-!
# Bodies that crash their reader

Reading a JSON value as a type ends in a value, in a failure of the client's, or in a crash. It
crashes in five ways, at any depth and where everything in front was read well: an integer too large
for a double, an item that a set cannot hold, a constraint that does not fit its scalar, a class
that has no declaration, and a refusal that would have to show an integer of too many digits.
Decoding a payload crashes in one more way: when it is nested deeper than there is room.
-/

namespace HttpContract

variable {J : Judgement}

/-- Of JSON values a property holds when it holds of arrays and objects whose parts have it, and of
everything else. -/
theorem Json.induction {P : Json → Prop}
    (other : ∀ j, (∀ items, j ≠ .array items) → (∀ members, j ≠ .object members) → P j)
    (array : ∀ items, (∀ item ∈ items, P item) → P (.array items))
    (object : ∀ members : List (String × Json), (∀ m ∈ members, P m.2) → P (.object members))
    (j : Json) : P j := by
  refine @Json.rec P (fun items => ∀ item ∈ items, P item) (fun members => ∀ m ∈ members, P m.2)
    (fun m => P m.2) ?_ ?_ ?_ ?_ array object ?_ ?_ ?_ ?_ ?_ j
  · exact other _ (by simp) (by simp)
  · exact fun b => other _ (by simp) (by simp)
  · exact fun n => other _ (by simp) (by simp)
  · exact fun s => other _ (by simp) (by simp)
  · simp
  · exact fun first rest hfirst hrest => List.forall_mem_cons.mpr ⟨hfirst, hrest⟩
  · simp
  · exact fun first rest hfirst hrest => List.forall_mem_cons.mpr ⟨hfirst, hrest⟩
  · exact fun key j hj => hj

namespace Classes

/-- The records that reading values of a type may make. -/
inductive Makes (C : Classes) : TypeInfo → String → Prop
  | record {name : String} {nullable : Bool} {notes : List Note} :
      Makes C (.leaf (.record name) nullable notes) name
  | field {name other : String} {nullable : Bool} {notes : List Note} {shape : Shape} {f : Field}
      (hshape : C.shape name = .ok shape) (hf : f ∈ shape.fields) (hother : Makes C f.type other) :
      Makes C (.leaf (.record name) nullable notes) other
  | variant {base other : String} {nullable : Bool} {notes : List Note} {h : Hierarchy}
      {v : String × String} (hh : C.hierarchy base = .ok h) (hv : v ∈ h.variants)
      (hother : Makes C (.leaf (.record v.2) false []) other) :
      Makes C (.leaf (.polymorphic base) nullable notes) other
  | item {container : Container} {item : TypeInfo} {other : String} {nullable : Bool}
      {notes : List Note} (hother : Makes C item other) :
      Makes C (.array container item nullable notes) other
  | value {item : TypeInfo} {other : String} {nullable : Bool} {notes : List Note}
      (hother : Makes C item other) : Makes C (.map item nullable notes) other

/-- No record that values of a type are made of has a check of order of its own. -/
def Unchecked (C : Classes) (type : TypeInfo) : Prop :=
  ∀ name, C.Makes type name → C.orderCheck? name = none

/-- Whether a class that a form stands for lacks its declaration. -/
def Undeclared (C : Classes) : Leaf → Prop
  | .enumeration name => C.enumeration? name = none
  | .record name => ∃ e, C.shape name = .error e
  | .polymorphic base => ∃ e, C.hierarchy base = .error e
  | .scalar _ | .any => False

namespace Unchecked

variable {C : Classes} {nullable : Bool} {notes : List Note}

/-- The items of an unchecked array are unchecked. -/
theorem item {container : Container} {item : TypeInfo}
    (h : C.Unchecked (.array container item nullable notes)) : C.Unchecked item :=
  fun name hname => h name (.item hname)

/-- The values of an unchecked map are unchecked. -/
theorem value {item : TypeInfo} (h : C.Unchecked (.map item nullable notes)) : C.Unchecked item :=
  fun name hname => h name (.value hname)

/-- The fields of an unchecked record are unchecked. -/
theorem field {name : String} {shape : Shape} {f : Field}
    (h : C.Unchecked (.leaf (.record name) nullable notes)) (hshape : C.shape name = .ok shape)
    (hf : f ∈ shape.fields) : C.Unchecked f.type :=
  fun other hother => h other (.field hshape hf hother)

/-- The variants of an unchecked base are unchecked. -/
theorem variant {base tag name : String} {hierarchy : Hierarchy}
    (h : C.Unchecked (.leaf (.polymorphic base) nullable notes))
    (hh : C.hierarchy base = .ok hierarchy) (hname : hierarchy.variant? tag = some name) :
    C.Unchecked (.leaf (.record name) false []) :=
  fun other hother => h other (.variant hh (Table.mem_of_get? hname) hother)

end Unchecked

end Classes

namespace Body

/-- Where reading a JSON value as a type at a path crashes, under constraints from outside, `breaks`
telling which constraints break on which values. -/
inductive Trips (breaks : Constraint → Value → Prop) (C : Classes) :
    String → Json → TypeInfo → List Constraint → Prop
  | tooLarge {path : String} {n : Int} {nullable : Bool} {notes : List Note}
      {constraints : List Constraint} (hn : Double.ofInt? n = none) :
      Trips breaks C path (.number (.int n)) (.leaf (.scalar .number) nullable notes) constraints
  | misfit {path : String} {j : Json} {type : Scalar} {nullable : Bool} {notes : List Note}
      {constraints front behind : List Constraint} {c : Constraint} {v w : Value}
      (hread : readScalar path type j = .ok v) (htakes : takesConstraints type = true)
      (horder : inOrder (constraints ++ constraintsIn notes) = front ++ c :: behind)
      (hfront : applyInOrder path front v = .ok w) (hbreaks : breaks c w) :
      Trips breaks C path j (.leaf (.scalar type) nullable notes) constraints
  | unlisted {path : String} {j : Json} {name : String} {nullable : Bool} {notes : List Note}
      {constraints : List Constraint} (hj : j ≠ .null) (hname : C.Undeclared (.enumeration name)) :
      Trips breaks C path j (.leaf (.enumeration name) nullable notes) constraints
  | unsaidMember {path : String} {j : Json} {name : String} {nullable : Bool} {notes : List Note}
      {constraints : List Constraint} {e : Enumeration} {failure : Failure} (hj : j ≠ .null)
      (he : C.enumeration? name = some e) (hread : readMember name e path j = .error failure)
      (hlisted : (Value.list (e.members.map (·.2))).isWritable = false) :
      Trips breaks C path j (.leaf (.enumeration name) nullable notes) constraints
  | unsaidVariant {path base : String} {members : List (String × Json)} {nullable : Bool}
      {notes : List Note} {constraints : List Constraint} {h : Hierarchy} {tag : Json}
      (hh : C.hierarchy base = .ok h) (htag : Table.get? h.discriminator members = some tag)
      (hunsaid : tag.isWritable = false) :
      Trips breaks C path (.object members) (.leaf (.polymorphic base) nullable notes) constraints
  | undeclared {path : String} {members : List (String × Json)} {form : Leaf} {nullable : Bool}
      {notes : List Note} {constraints : List Constraint} (hform : form.isObject = true)
      (hnone : C.Undeclared form) :
      Trips breaks C path (.object members) (.leaf form nullable notes) constraints
  | unhashable {path : String} {items : List Json} {container : Container} {item : TypeInfo}
      {nullable : Bool} {notes : List Note} {constraints : List Constraint} {vs : List Value}
      {v : Value} {type : String} (hset : container = .set ∨ container = .frozenset)
      (hread : readItems item path (constraints ++ constraintsIn notes) 0 (itemReaders C items) =
        .ok vs)
      (hv : v ∈ vs) (htype : unhashable? C v = some type) :
      Trips breaks C path (.array items) (.array container item nullable notes) constraints
  | item {path : String} {front behind : List Json} {j : Json} {container : Container}
      {item : TypeInfo} {nullable : Bool} {notes : List Note} {constraints : List Constraint}
      {vs : List Value}
      (hfront : readItems item path (constraints ++ constraintsIn notes) 0 (itemReaders C front) =
        .ok vs)
      (hj : Trips breaks C (itemPath path front.length) j item
        (constraints ++ constraintsIn notes)) :
      Trips breaks C path (.array (front ++ j :: behind)) (.array container item nullable notes)
        constraints
  | value {path key : String} {front behind : List (String × Json)} {j : Json} {item : TypeInfo}
      {nullable : Bool} {notes : List Note} {constraints : List Constraint}
      {entries : List (Value × Value)}
      (hfront : readEntries item path (memberReaders C front) = .ok entries)
      (hj : Trips breaks C (memberPath path key) j item []) :
      Trips breaks C path (.object (front ++ (key, j) :: behind)) (.map item nullable notes)
        constraints
  | field {path name : String} {members : List (String × Json)} {nullable : Bool}
      {notes : List Note} {constraints : List Constraint} {shape : Shape}
      {front behind : List Field} {f : Field} {given : List (String × Value)} {j : Json}
      (hshape : C.shape name = .ok shape)
      (hfields : shape.fields = front ++ f :: behind)
      (hfront : readFields path (memberReaders C members) front = .ok given)
      (hmember : Table.get? f.wireName members = some j)
      (hj : Trips breaks C (memberPath path f.wireName) j f.type []) :
      Trips breaks C path (.object members) (.leaf (.record name) nullable notes) constraints
  | variant {path base tag name : String} {members : List (String × Json)} {nullable : Bool}
      {notes : List Note} {constraints : List Constraint} {h : Hierarchy}
      (hh : C.hierarchy base = .ok h)
      (htag : Table.get? h.discriminator members = some (.text tag))
      (hname : h.variant? tag = some name)
      (hrecord : Trips breaks C path (.object members) (.leaf (.record name) false []) []) :
      Trips breaks C path (.object members) (.leaf (.polymorphic base) nullable notes) constraints

variable {C : Classes} {path : String} {constraints : List Constraint}

/-- Items fail at the first item that does, those in front being read well. -/
theorem readItems_eq_error_iff {item : TypeInfo} {index : Nat} {items : List Json} {e : Failure} :
    readItems item path constraints index (itemReaders C items) = .error e ↔
      ∃ front j behind vs, items = front ++ j :: behind ∧
        readItems item path constraints index (itemReaders C front) = .ok vs ∧
        read C j item (itemPath path (index + front.length)) constraints = .error e := by
  induction items generalizing index with
  | nil => simp [itemReaders, readItems]
  | cons j rest ih =>
    rw [itemReaders, readItems, bind_eq_error_iff]
    constructor
    · rintro (hj | ⟨v, hv, hrest⟩)
      · exact ⟨[], j, rest, [], rfl, rfl, hj⟩
      · rcases bind_eq_error_iff.mp hrest with hrest | ⟨_, _, hrest⟩
        · obtain ⟨front, k, behind, vs, rfl, hfront, hk⟩ := ih.mp hrest
          refine ⟨j :: front, k, behind, v :: vs, rfl, ?_, ?_⟩
          · rw [itemReaders, readItems, hv, hfront]
            rfl
          · rwa [List.length_cons, Nat.add_comm front.length 1, ← Nat.add_assoc]
        · cases hrest
    · rintro ⟨front, k, behind, vs, heq, hfront, hk⟩
      cases front with
      | nil =>
        cases heq
        exact Or.inl hk
      | cons first front =>
        cases heq
        rw [itemReaders, readItems] at hfront
        obtain ⟨v, hv, hfront⟩ := bind_eq_ok_iff.mp hfront
        obtain ⟨ws, hws, _⟩ := bind_eq_ok_iff.mp hfront
        refine Or.inr ⟨v, hv, bind_eq_error_iff.mpr (Or.inl (ih.mpr ?_))⟩
        rw [List.length_cons, Nat.add_comm front.length 1, ← Nat.add_assoc] at hk
        exact ⟨front, k, behind, ws, rfl, hws, hk⟩

/-- Entries fail at the first value that does, those in front being read well. -/
theorem readEntries_eq_error_iff {item : TypeInfo} {members : List (String × Json)} {e : Failure} :
    readEntries item path (memberReaders C members) = .error e ↔
      ∃ front key j behind entries, members = front ++ (key, j) :: behind ∧
        readEntries item path (memberReaders C front) = .ok entries ∧
        read C j item (memberPath path key) [] = .error e := by
  induction members with
  | nil => simp [memberReaders, readEntries]
  | cons member rest ih =>
    obtain ⟨key, j⟩ := member
    rw [memberReaders, readEntries, bind_eq_error_iff]
    constructor
    · rintro (hj | ⟨v, hv, hrest⟩)
      · exact ⟨[], key, j, rest, [], rfl, rfl, hj⟩
      · rcases bind_eq_error_iff.mp hrest with hrest | ⟨_, _, hrest⟩
        · obtain ⟨front, other, k, behind, entries, rfl, hfront, hk⟩ := ih.mp hrest
          refine ⟨(key, j) :: front, other, k, behind, (.text key, v) :: entries, rfl, ?_, hk⟩
          rw [memberReaders, readEntries, hv, hfront]
          rfl
        · cases hrest
    · rintro ⟨front, other, k, behind, entries, heq, hfront, hk⟩
      cases front with
      | nil =>
        cases heq
        exact Or.inl hk
      | cons first front =>
        cases heq
        rw [memberReaders, readEntries] at hfront
        obtain ⟨v, hv, hfront⟩ := bind_eq_ok_iff.mp hfront
        obtain ⟨others, hothers, _⟩ := bind_eq_ok_iff.mp hfront
        exact Or.inr ⟨v, hv, bind_eq_error_iff.mpr
          (Or.inl (ih.mpr ⟨front, other, k, behind, others, rfl, hothers, hk⟩))⟩

/-- Fields fail at the first one whose member does or that is missing, those in front being read
well. -/
theorem readFields_eq_error_iff {members : List (String × Json)} {fields : List Field}
    {e : Failure} :
    readFields path (memberReaders C members) fields = .error e ↔
      ∃ front f behind given, fields = front ++ f :: behind ∧
        readFields path (memberReaders C members) front = .ok given ∧
        match Table.get? f.wireName members with
        | some j => read C j f.type (memberPath path f.wireName) [] = .error e
        | none => f.required = true ∧ e = .binding (.missing (memberPath path f.wireName)) := by
  have hfield (f : Field) : readField path (memberReaders C members) f = .error e ↔
      match Table.get? f.wireName members with
      | some j => read C j f.type (memberPath path f.wireName) [] = .error e
      | none => f.required = true ∧ e = .binding (.missing (memberPath path f.wireName)) := by
    rw [readField, get?_memberReaders]
    cases Table.get? f.wireName members with
    | some j => exact map_eq_error_iff
    | none => exact Field.absent_eq_error_iff
  simp only [readFields_eq_gather, gather_eq_error_iff, hfield]

/-- Items crash at the first item that does, those in front being read well. -/
theorem crashes_readItems_iff {item : TypeInfo} {index : Nat} {items : List Json} :
    J.Crashes (readItems item path constraints index (itemReaders C items)) ↔
      ∃ front j behind vs, items = front ++ j :: behind ∧
        readItems item path constraints index (itemReaders C front) = .ok vs ∧
        J.Crashes (read C j item (itemPath path (index + front.length)) constraints) := by
  constructor
  · rintro ⟨e, h, he⟩
    obtain ⟨front, j, behind, vs, hitems, hfront, hj⟩ := readItems_eq_error_iff.mp h
    exact ⟨front, j, behind, vs, hitems, hfront, e, hj, he⟩
  · rintro ⟨front, j, behind, vs, hitems, hfront, e, hj, he⟩
    exact ⟨e, readItems_eq_error_iff.mpr ⟨front, j, behind, vs, hitems, hfront, hj⟩, he⟩

/-- Entries crash at the first value that does, those in front being read well. -/
theorem crashes_readEntries_iff {item : TypeInfo} {members : List (String × Json)} :
    J.Crashes (readEntries item path (memberReaders C members)) ↔
      ∃ front key j behind entries, members = front ++ (key, j) :: behind ∧
        readEntries item path (memberReaders C front) = .ok entries ∧
        J.Crashes (read C j item (memberPath path key) []) := by
  constructor
  · rintro ⟨e, h, he⟩
    obtain ⟨front, key, j, behind, entries, hmembers, hfront, hj⟩ := readEntries_eq_error_iff.mp h
    exact ⟨front, key, j, behind, entries, hmembers, hfront, e, hj, he⟩
  · rintro ⟨front, key, j, behind, entries, hmembers, hfront, e, hj, he⟩
    exact ⟨e, readEntries_eq_error_iff.mpr
      ⟨front, key, j, behind, entries, hmembers, hfront, hj⟩, he⟩

/-- Fields crash at the first one whose member does, those in front being read well. -/
theorem crashes_readFields_iff {members : List (String × Json)} {fields : List Field} :
    J.Crashes (readFields path (memberReaders C members) fields) ↔
      ∃ front f behind given j, fields = front ++ f :: behind ∧
        readFields path (memberReaders C members) front = .ok given ∧
        Table.get? f.wireName members = some j ∧
        J.Crashes (read C j f.type (memberPath path f.wireName) []) := by
  constructor
  · rintro ⟨e, h, he⟩
    obtain ⟨front, f, behind, given, hfields, hfront, hf⟩ := readFields_eq_error_iff.mp h
    split at hf
    · rename_i j hmember
      exact ⟨front, f, behind, given, j, hfields, hfront, hmember, e, hf, he⟩
    · rw [hf.2] at he
      simp at he
  · rintro ⟨front, f, behind, given, j, hfields, hfront, hmember, e, hj, he⟩
    exact ⟨e, readFields_eq_error_iff.mpr
      ⟨front, f, behind, given, hfields, hfront, by rw [hmember]; exact hj⟩, he⟩

/-- A value of the wrong kind is the client's failure. -/
@[simp] theorem not_crashes_mismatch {α : Type} (path : String) (expected : Expected)
    (found : Json) :
    ¬J.Crashes (mismatch path expected found : Except Failure α) := not_crashes_refused _ rfl

/-- Reading a text never crashes. -/
theorem not_crashes_readText (path : String) (expected : Expected) (convert : String → Option Value)
    (j : Json) : ¬J.Crashes (readText path expected convert j) := by
  unfold readText
  split
  · split
    · exact not_crashes_ok _
    · exact not_crashes_refused _ rfl
  · exact not_crashes_mismatch _ _ _

/-- Reading a scalar crashes only on an integer that no double is near to. -/
theorem crashes_readScalar_iff (path : String) (type : Scalar) (j : Json) :
    J.Crashes (readScalar path type j) ↔
      type = .number ∧ ∃ n, j = .number (.int n) ∧ Double.ofInt? n = none := by
  cases type with
  | number =>
    cases j with
    | number n =>
      cases n with
      | int n => cases hn : Double.ofInt? n <;> simp [readScalar, readNumber, hn]
      | float x => cases hx : x.isFinite <;> simp [readScalar, readNumber, hx]
    | null | bool b | text s | array items | object members => simp [readScalar, readNumber]
  | text | integer | boolean =>
    simp only [readScalar]
    split <;> simp
  | uuid | date | dateTime => simpa [readScalar] using not_crashes_readText _ _ _ _

/-- What is read as a scalar that takes constraints is a text or a number. -/
theorem isBasic_of_readScalar {type : Scalar} {j : Json} {v : Value}
    (htakes : takesConstraints type = true) (h : readScalar path type j = .ok v) : v.IsBasic := by
  cases type with
  | text =>
    simp only [readScalar] at h
    split at h <;> cases h
    exact .text _
  | integer =>
    simp only [readScalar] at h
    split at h <;> cases h
    exact .number _
  | number =>
    simp only [readScalar, readNumber] at h
    split at h
    · split at h <;> cases h
      exact .number _
    · split at h <;> cases h
      exact .number _
    · cases h
  | boolean | uuid | date | dateTime => cases htakes

/-- A scalar crashes its reader when its own reading does, or else a constraint on it. -/
theorem crashes_readLeaf_scalar_iff {type : Scalar} {ordered : List Constraint} {j : Json} :
    J.Crashes (readLeaf C (.scalar type) ordered path j) ↔
      (type = .number ∧ ∃ n, j = .number (.int n) ∧ Double.ofInt? n = none) ∨
      ∃ v front c behind w, readScalar path type j = .ok v ∧ takesConstraints type = true ∧
        inOrder ordered = front ++ c :: behind ∧ applyInOrder path front v = .ok w ∧
        c.Breaks w := by
  rw [readLeaf, crashes_bind_iff, crashes_readScalar_iff]
  refine or_congr_right ⟨?_, ?_⟩
  · rintro ⟨v, hv, hcrash⟩
    by_cases htakes : takesConstraints type = true
    · rw [if_pos htakes] at hcrash
      obtain ⟨front, c, behind, w, horder, hfront, hc⟩ :=
        (crashes_applyInOrder_iff (isBasic_of_readScalar htakes hv)).mp hcrash
      exact ⟨v, front, c, behind, w, hv, htakes, horder, hfront, hc⟩
    · rw [if_neg htakes] at hcrash
      exact absurd hcrash (not_crashes_ok _)
  · rintro ⟨v, front, c, behind, w, hv, htakes, horder, hfront, hc⟩
    refine ⟨v, hv, ?_⟩
    rw [if_pos htakes]
    exact (crashes_applyInOrder_iff (isBasic_of_readScalar htakes hv)).mpr
      ⟨front, c, behind, w, horder, hfront, hc⟩

/-- Reading a member of an enumeration crashes only when there is none and the members cannot be
listed. -/
theorem crashes_readMember_iff {name : String} {e : Enumeration} {j : Json} :
    J.Crashes (readMember name e path j) ↔ (∃ failure, readMember name e path j = .error failure) ∧
      (Value.list (e.members.map (·.2))).isWritable = false := by
  unfold readMember
  split
  · simp
  · dsimp only
    split
    · simp
    · simp [Refusal.isWritable]

/-- Holding items crashes only for a set, with an item that has no hash. -/
theorem crashes_contain_iff {container : Container} {items : List Value} :
    J.Crashes (contain C container items) ↔
      (container = .set ∨ container = .frozenset) ∧
        ∃ v ∈ items, ∃ type, unhashable? C v = some type := by
  have hset : (items.findSome? (unhashable? C)).isSome = true ↔
      ∃ v ∈ items, ∃ type, unhashable? C v = some type := by
    rw [List.findSome?_isSome_iff]
    simp only [Option.isSome_iff_exists]
  cases container with
  | list | tuple => simp [contain]
  | set | frozenset =>
    rw [← hset, contain]
    cases items.findSome? (unhashable? C) with
    | none => simp
    | some type => simp

/-- A record of a class without a check of order crashes its reader when its fields do. -/
theorem crashes_readRecord_iff {name : String} {shape : Shape} {members : List (String × Json)}
    (hshape : C.shape name = .ok shape) (hcheck : C.orderCheck? name = none) :
    J.Crashes (readRecord C shape (memberReaders C members) path) ↔
      J.Crashes (readFields path (memberReaders C members) shape.fields) := by
  rw [readRecord, crashes_bind_iff]
  refine ⟨?_, Or.inl⟩
  rintro (h | ⟨given, hgiven, h⟩)
  · exact h
  · rw [readFields_eq_gather] at hgiven
    have hcovers : shape.Covers given := covers_gather (List.map_id _) given_readField hgiven
    exact absurd h
      (Classes.not_crashes_construct hshape (Classes.takesValues_of_none hcheck) hcovers)

/-- A variant crashes its reader when the base or the variant named has no declaration, when what
should name the variant cannot be shown, or when it crashes as a record of this class. -/
theorem crashes_readVariant_iff {base : String} {members : List (String × Json)}
    {readers : List (String × ValueReader)} :
    J.Crashes (readVariant C base members readers path) ↔
      (∃ e, C.hierarchy base = .error e) ∨
      (∃ h tag, C.hierarchy base = .ok h ∧ Table.get? h.discriminator members = some tag ∧
        tag.isWritable = false) ∨
      ∃ h tag name, C.hierarchy base = .ok h ∧
        Table.get? h.discriminator members = some (.text tag) ∧ h.variant? tag = some name ∧
        J.Crashes (configured (C.shape name) >>= fun shape => readRecord C shape readers path) := by
  rw [readVariant, crashes_bind_iff, crashes_configured_iff]
  refine or_congr_right ⟨?_, ?_⟩
  · rintro ⟨h, hh, hcrash⟩
    have hh : C.hierarchy base = .ok h := mapError_eq_ok_iff.mp hh
    dsimp only at hcrash
    split at hcrash
    · exact absurd hcrash (not_crashes_refused _ rfl)
    · exact absurd hcrash (not_crashes_refused _ rfl)
    · rename_i tag _ htag
      cases tag with
      | text tag =>
        dsimp only at hcrash
        cases hname : h.variant? tag with
        | none =>
          rw [hname] at hcrash
          exact absurd hcrash (not_crashes_refused _ rfl)
        | some name =>
          rw [hname] at hcrash
          exact Or.inr ⟨h, tag, name, hh, htag, hname, hcrash⟩
      | null | bool b | number n | array items | object members =>
        have hunsaid := (crashes_error_iff _).mp hcrash
        rw [J.refused, Bool.not_eq_true'] at hunsaid
        exact Or.inl ⟨h, _, hh, htag, hunsaid⟩
  · rintro (⟨h, tag, hh, htag, hunsaid⟩ | ⟨h, tag, name, hh, htag, hname, hcrash⟩)
    · refine ⟨h, mapError_eq_ok_iff.mpr hh, ?_⟩
      dsimp only
      rw [htag]
      cases tag with
      | null | text s => simp [Json.isWritable, Value.ofJson, Value.isWritable] at hunsaid
      | bool b | number n | array items | object members =>
        exact (crashes_error_iff _).mpr (by rw [J.refused, Refusal.isWritable, hunsaid]; rfl)
    · refine ⟨h, mapError_eq_ok_iff.mpr hh, ?_⟩
      dsimp only
      rw [htag]
      dsimp only
      rw [hname]
      exact hcrash

/-- A form without parts crashes its reader where reading it as a type trips. -/
theorem trips_of_crashes_readLeaf {form : Leaf} {nullable : Bool} {notes : List Note} {j : Json}
    (hj : j ≠ .null) (h : J.Crashes (readLeaf C form (constraints ++ constraintsIn notes) path j)) :
    Trips Constraint.Breaks C path j (.leaf form nullable notes) constraints := by
  cases form with
  | scalar type =>
    rcases crashes_readLeaf_scalar_iff.mp h with ⟨rfl, n, rfl, hn⟩ |
      ⟨v, front, c, behind, w, hv, htakes, horder, hfront, hc⟩
    · exact .tooLarge hn
    · exact .misfit hv htakes horder hfront hc
  | enumeration name =>
    rw [readLeaf] at h
    cases he : C.enumeration? name with
    | none => exact .unlisted hj he
    | some e =>
      rw [he] at h
      obtain ⟨⟨failure, hread⟩, hlisted⟩ := crashes_readMember_iff.mp h
      exact .unsaidMember hj he hread hlisted
  | record name | polymorphic name => exact absurd h (not_crashes_mismatch _ _ _)
  | any => exact absurd h (not_crashes_ok _)

/-- Wherever reading trips, it crashes. -/
theorem Trips.crashes {breaks : Constraint → Value → Prop}
    (hbreaks : ∀ ⦃c v⦄, breaks c v → c.Breaks v) {j : Json} {type : TypeInfo}
    (h : Trips breaks C path j type constraints) : J.Crashes (read C j type path constraints) := by
  induction h with
  | @tooLarge path n nullable notes constraints hn =>
    have hj : Json.number (.int n) ≠ .null := by simp
    rw [read_leaf hj rfl]
    exact crashes_readLeaf_scalar_iff.mpr (Or.inl ⟨rfl, _, rfl, hn⟩)
  | @misfit path j type nullable notes constraints front behind c v w hread htakes horder hfront
      hc =>
    have hj : j ≠ .null := by
      rintro rfl
      cases type <;> cases hread
    rw [read_leaf hj rfl]
    exact crashes_readLeaf_scalar_iff.mpr
      (Or.inr ⟨v, front, c, behind, w, hread, htakes, horder, hfront, hbreaks hc⟩)
  | unlisted hj hname =>
    rw [read_leaf hj rfl, readLeaf, show C.enumeration? _ = none from hname]
    exact ⟨_, rfl, J.fault _⟩
  | unsaidMember hj he hread hlisted =>
    rw [read_leaf hj rfl, readLeaf, he]
    exact crashes_readMember_iff.mpr ⟨⟨_, hread⟩, hlisted⟩
  | unsaidVariant hh htag hunsaid =>
    rw [read_polymorphic, crashes_readVariant_iff]
    exact Or.inr (Or.inl ⟨_, _, hh, htag, hunsaid⟩)
  | @undeclared path members form nullable notes constraints hform hnone =>
    cases form with
    | scalar type | enumeration name | any => cases hform
    | record name =>
      obtain ⟨e, he⟩ := hnone
      rw [read_record, crashes_bind_iff, crashes_configured_iff]
      exact Or.inl ⟨e, he⟩
    | polymorphic base =>
      rw [read_polymorphic, crashes_readVariant_iff]
      exact Or.inl hnone
  | unhashable hset hread hv htype =>
    rw [read_array, crashes_bind_iff]
    exact Or.inr ⟨_, hread, crashes_contain_iff.mpr ⟨hset, _, hv, _, htype⟩⟩
  | item hfront _ ih =>
    rw [read_array, crashes_bind_iff, crashes_readItems_iff]
    exact Or.inl ⟨_, _, _, _, rfl, hfront, by rwa [Nat.zero_add]⟩
  | value hfront _ ih =>
    rw [read_map, crashes_map_iff, crashes_readEntries_iff]
    exact ⟨_, _, _, _, _, rfl, hfront, ih⟩
  | @field path name members nullable notes constraints shape front behind f given j hshape hfields
      hfront hmember _ ih =>
    rw [read_record, hshape]
    refine crashes_bind_iff.mpr (Or.inr ⟨shape, rfl, ?_⟩)
    rw [readRecord, hfields, crashes_bind_iff]
    exact Or.inl (crashes_readFields_iff.mpr ⟨front, f, behind, given, j, rfl, hfront, hmember, ih⟩)
  | variant hh htag hname _ ih =>
    rw [read_record] at ih
    rw [read_polymorphic, crashes_readVariant_iff]
    exact Or.inr (Or.inr ⟨_, _, _, hh, htag, hname, ih⟩)

/-- Whether reading a JSON value, as any type without checks of order, trips where it crashes. -/
def TripsWhereCrashing (J : Judgement) (C : Classes) (j : Json) : Prop :=
  ∀ ⦃path : String⦄ ⦃constraints : List Constraint⦄ ⦃type : TypeInfo⦄, C.Unchecked type →
    J.Crashes (read C j type path constraints) → Trips Constraint.Breaks C path j type constraints

/-- An object crashes its reader as a record where one of the members does. -/
theorem trips_of_crashes_record {members : List (String × Json)} {name : String} {nullable : Bool}
    {notes : List Note} (hunchecked : C.Unchecked (.leaf (.record name) nullable notes))
    (ih : ∀ m ∈ members, TripsWhereCrashing J C m.2)
    (h : J.Crashes
      (read C (.object members) (.leaf (.record name) nullable notes) path constraints)) :
    Trips Constraint.Breaks C path (.object members) (.leaf (.record name) nullable notes)
      constraints := by
  rw [read_record, crashes_bind_iff, crashes_configured_iff] at h
  rcases h with hnone | ⟨shape, hshape, h⟩
  · exact .undeclared rfl hnone
  · have hshape : C.shape name = .ok shape := mapError_eq_ok_iff.mp hshape
    have hcheck : C.orderCheck? name = none := hunchecked name .record
    obtain ⟨front, f, behind, given, j, hfields, hfront, hmember, hj⟩ :=
      crashes_readFields_iff.mp ((crashes_readRecord_iff hshape hcheck).mp h)
    have hf : f ∈ shape.fields := by
      rw [hfields]
      exact List.mem_append_right _ List.mem_cons_self
    exact .field hshape hfields hfront hmember
      (ih _ (Table.mem_of_get? hmember) (hunchecked.field hshape hf) hj)

/-- An array crashes its reader where one of the items does, or where a set cannot hold them. -/
theorem trips_of_crashes_array {items : List Json} {type : TypeInfo} (hunchecked : C.Unchecked type)
    (ih : ∀ j ∈ items, TripsWhereCrashing J C j)
    (h : J.Crashes (read C (.array items) type path constraints)) :
    Trips Constraint.Breaks C path (.array items) type constraints := by
  cases type with
  | array container item nullable notes =>
    rw [read_array, crashes_bind_iff, crashes_readItems_iff] at h
    rcases h with ⟨front, j, behind, vs, rfl, hfront, hj⟩ | ⟨vs, hread, h⟩
    · rw [Nat.zero_add] at hj
      have hmem : j ∈ front ++ j :: behind := List.mem_append_right _ List.mem_cons_self
      exact .item hfront (ih j hmem hunchecked.item hj)
    · obtain ⟨hset, v, hv, type, htype⟩ := crashes_contain_iff.mp h
      exact .unhashable hset hread hv htype
  | map item nullable notes =>
    rw [read] at h
    exact absurd h (not_crashes_mismatch _ _ _)
  | leaf form nullable notes =>
    rw [read] at h
    exact trips_of_crashes_readLeaf (by simp) h

/-- An object crashes its reader where one of the members does, or where a class is undeclared. -/
theorem trips_of_crashes_object {members : List (String × Json)} {type : TypeInfo}
    (hunchecked : C.Unchecked type)
    (ih : ∀ m ∈ members, TripsWhereCrashing J C m.2)
    (h : J.Crashes (read C (.object members) type path constraints)) :
    Trips Constraint.Breaks C path (.object members) type constraints := by
  cases type with
  | array container item nullable notes =>
    rw [read] at h
    exact absurd h (not_crashes_mismatch _ _ _)
  | map item nullable notes =>
    rw [read_map, crashes_map_iff, crashes_readEntries_iff] at h
    obtain ⟨front, key, j, behind, entries, rfl, hfront, hj⟩ := h
    have hmem : (key, j) ∈ front ++ (key, j) :: behind :=
      List.mem_append_right _ List.mem_cons_self
    exact .value hfront (ih (key, j) hmem hunchecked.value hj)
  | leaf form nullable notes =>
    cases form with
    | record name => exact trips_of_crashes_record hunchecked ih h
    | polymorphic base =>
      rw [read_polymorphic, crashes_readVariant_iff] at h
      rcases h with hnone | ⟨_, tag, hh, htag, hunsaid⟩ | ⟨hierarchy, tag, name, hh, htag, hname, h⟩
      · exact .undeclared rfl hnone
      · exact .unsaidVariant hh htag hunsaid
      · have hvariant := hunchecked.variant hh hname
        have hrecord : J.Crashes
            (read C (.object members) (.leaf (.record name) false []) path []) := by
          rw [read_record]
          exact h
        exact .variant hh htag hname (trips_of_crashes_record hvariant ih hrecord)
    | scalar type | enumeration name | any =>
      rw [read_leaf (by simp) rfl] at h
      exact trips_of_crashes_readLeaf (by simp) h

/-- Whatever crashes its reader trips it somewhere. -/
theorem tripsWhereCrashing (J : Judgement) (C : Classes) (j : Json) :
    TripsWhereCrashing J C j := by
  -- Each reader goes down by one part of the value, a variant staying at the same object.
  induction j using Json.induction with
  | array items ih => exact fun _ _ _ hunchecked h => trips_of_crashes_array hunchecked ih h
  | object members ih => exact fun _ _ _ hunchecked h => trips_of_crashes_object hunchecked ih h
  | other j harray hobject =>
    intro path constraints type hunchecked h
    cases j with
    | array items => exact absurd rfl (harray items)
    | object members => exact absurd rfl (hobject members)
    | null =>
      rw [read_null] at h
      split at h
      · exact absurd h (not_crashes_ok _)
      · exact absurd h (not_crashes_refused _ rfl)
    | bool b | number n | text s =>
      cases type with
      | array container item nullable notes =>
        rw [read] at h
        all_goals exact absurd h (not_crashes_mismatch _ _ _)
      | map item nullable notes =>
        rw [read] at h
        all_goals exact absurd h (not_crashes_mismatch _ _ _)
      | leaf form nullable notes =>
        rw [read] at h
        · exact trips_of_crashes_readLeaf (by simp) h
        all_goals simp

/-- Reading crashes exactly where it trips. -/
theorem crashes_read_iff {j : Json} {type : TypeInfo} (hunchecked : C.Unchecked type) :
    J.Crashes (read C j type path constraints) ↔
      Trips Constraint.Breaks C path j type constraints :=
  ⟨fun h => tripsWhereCrashing J C j hunchecked h, Trips.crashes fun _ _ hc => hc⟩

/-- Whether a payload is nested deeper than there is room, or is JSON that trips a hint's reader. -/
def Undecodable (breaks : Constraint → Value → Prop) (C : Classes) (room : Nat) (p : Payload)
    (hint : Hint) : Prop :=
  (∃ form, p.readJson room = .error (.tooNested form)) ∨
    ∃ data type, p.readJson room = .ok data ∧ C.resolve hint [] = .ok type ∧
      Trips breaks C "" data type []

/-- Decoding crashes on a payload that cannot be decoded. -/
theorem Undecodable.crashes {breaks : Constraint → Value → Prop}
    (hbreaks : ∀ ⦃c v⦄, breaks c v → c.Breaks v) {room : Nat} {payload : Option Payload}
    {p : Payload} (hp : payload.filter (fun p => !p.isEmpty) = some p) {hint : Hint}
    (h : Undecodable breaks C room p hint) (required : Bool) :
    J.Crashes (decode C room payload hint required) := by
  rw [decode, hp]
  dsimp only
  rcases h with ⟨form, hnested⟩ | ⟨data, type, hdata, htype, htrips⟩
  · rw [hnested]
    exact ⟨_, rfl, J.fault _⟩
  · rw [hdata, htype]
    exact htrips.crashes hbreaks

end Body

end HttpContract
