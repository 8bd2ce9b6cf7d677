import HttpContract.Body.Reader
import HttpContract.Proofs.Outcome
import HttpContract.Proofs.Tables

/-!
# Readers of bodies

How a JSON value is read, one law for each form of it and of the type. Everything that is proved
about reading starts from these laws.
-/

namespace HttpContract

/-- Whether values of a form are read from objects. -/
def Leaf.isObject : Leaf → Bool
  | .record _ | .polymorphic _ => true
  | .scalar _ | .enumeration _ | .any => false

namespace Body

variable {C : Classes} {path : String} {constraints : List Constraint}

/-- Null is read where it is allowed. -/
theorem read_null (type : TypeInfo) :
    read C .null type path constraints =
      if type.nullable then .ok .null else .error (.refused (place path) .nullValue) := rfl

/-- Anything but null is read as a form without parts by the reader of this form. -/
theorem read_leaf {j : Json} (hj : j ≠ .null) {form : Leaf} (hform : form.isObject = false)
    (nullable : Bool) (notes : List Note) :
    read C j (.leaf form nullable notes) path constraints =
      readLeaf C form (constraints ++ constraintsIn notes) path j := by
  cases j with
  | null => exact absurd rfl hj
  | bool b | number n | text s | array items => rfl
  | object members =>
    cases form with
    | record name | polymorphic base => cases hform
    | scalar type | enumeration name | any => rfl

/-- An array is read item by item, under the constraints of the array. -/
theorem read_array (items : List Json) (container : Container) (item : TypeInfo) (nullable : Bool)
    (notes : List Note) :
    read C (.array items) (.array container item nullable notes) path constraints =
      readItems item path (constraints ++ constraintsIn notes) 0 (itemReaders C items) >>=
        contain C container := rfl

/-- An object is read as a map value by value. -/
theorem read_map (members : List (String × Json)) (item : TypeInfo) (nullable : Bool)
    (notes : List Note) :
    read C (.object members) (.map item nullable notes) path constraints =
      (readEntries item path (memberReaders C members)).map .dict := by
  rw [read]
  dsimp only
  cases readEntries item path (memberReaders C members) <;> rfl

/-- The readers of members are those of their values. -/
theorem get?_memberReaders (key : String) (members : List (String × Json)) :
    Table.get? key (memberReaders C members) = (Table.get? key members).map (read C) := by
  have hmap : memberReaders C members = members.map fun entry => (entry.1, read C entry.2) := by
    induction members with
    | nil => rfl
    | cons entry rest ih =>
      rw [memberReaders, ih]
      rfl
  rw [hmap, Table.get?_map]

/-- An object is read as a record by the shape of the class. -/
theorem read_record (members : List (String × Json)) (name : String) (nullable : Bool)
    (notes : List Note) :
    read C (.object members) (.leaf (.record name) nullable notes) path constraints =
      configured (C.shape name) >>= fun shape =>
        readRecord C shape (memberReaders C members) path := rfl

/-- An object is read as the variant that it names. -/
theorem read_polymorphic (members : List (String × Json)) (base : String) (nullable : Bool)
    (notes : List Note) :
    read C (.object members) (.leaf (.polymorphic base) nullable notes) path constraints =
      readVariant C base members (memberReaders C members) path := rfl

/-- An object with the name of a variant is read as this variant. -/
theorem readVariant_of_tag {base tag className : String} {members : List (String × Json)}
    {readers : List (String × ValueReader)} {h : Hierarchy} {shape : Shape}
    (hh : C.hierarchy base = .ok h) (htag : Table.get? h.discriminator members = some (.text tag))
    (hvariant : h.variant? tag = some className) (hshape : C.shape className = .ok shape) :
    readVariant C base members readers path = readRecord C shape readers path := by
  rw [readVariant, hh]
  simp only [configured, mapError_ok, bind, Except.bind, htag, hvariant, hshape]

/-- What is read as a record is an object. -/
theorem exists_members_of_read_record {name : String} {notes : List Note} {j : Json} {v : Value}
    (h : read C j (.leaf (.record name) false notes) path constraints = .ok v) :
    ∃ members shape, j = .object members ∧ C.shape name = .ok shape ∧
      readRecord C shape (memberReaders C members) path = .ok v := by
  cases j with
  | object members =>
    rw [read_record] at h
    obtain ⟨shape, hshape, h⟩ := bind_eq_ok_iff.mp h
    exact ⟨members, shape, rfl, mapError_eq_ok_iff.mp hshape, h⟩
  | null =>
    rw [read_null] at h
    cases h
  | array items =>
    rw [read] at h
    cases h
  | bool b | number n | text s =>
    rw [read] at h
    · cases h
    all_goals simp

end Body

end HttpContract
