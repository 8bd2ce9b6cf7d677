import HttpContract.Schema.Basic
import HttpContract.Proofs.Body.RoundTrip

/-!
# Values that documents show as they are

A document shows a JSON value as far as it is finite. What a value of a type is written as has no
number in it that is not, so that a document shows all of it.
-/

namespace HttpContract

namespace Json

/-- Whether a document shows a JSON value as it is. -/
def IsFinite (j : Json) : Prop := j.finiteOnly = j

/-- An array is shown as it is when each of its items is. -/
theorem isFinite_array_iff {items : List Json} :
    (Json.array items).IsFinite ↔ ∀ item ∈ items, item.IsFinite := by
  rw [IsFinite, finiteOnly, Json.array.injEq]
  induction items with
  | nil => simp [finiteItems]
  | cons item rest ih => rw [finiteItems, List.cons.injEq, List.forall_mem_cons, ih, IsFinite]

/-- An object is shown as it is when each of its members is. -/
theorem isFinite_object_iff {members : List (String × Json)} :
    (Json.object members).IsFinite ↔ ∀ p ∈ members, p.2.IsFinite := by
  rw [IsFinite, finiteOnly, Json.object.injEq]
  induction members with
  | nil => simp [finiteMembers]
  | cons p rest ih =>
    obtain ⟨key, j⟩ := p
    rw [finiteMembers, List.cons.injEq, List.forall_mem_cons, ih, Prod.mk.injEq]
    simp [IsFinite]

end Json

/-- What holds of all values of a table and of one that is set holds of all values afterwards. -/
theorem Table.forall_set {κ ν : Type} [DecidableEq κ] {P : ν → Prop} {t : Table κ ν} {key : κ}
    {value : ν} (ht : ∀ p ∈ t, P p.2) (hvalue : P value) : ∀ p ∈ Table.set key value t, P p.2 := by
  unfold set
  induction t with
  | nil => simpa [update] using hvalue
  | cons entry rest ih =>
    obtain ⟨k, v⟩ := entry
    obtain ⟨hv, hrest⟩ := List.forall_mem_cons.mp ht
    rw [update]
    split
    · exact List.forall_mem_cons.mpr ⟨hvalue, hrest⟩
    · exact List.forall_mem_cons.mpr ⟨hv, ih hrest⟩

namespace Body

variable {C : Classes}

/-- Whether a document shows what a value is written as without a change. -/
def ShownAsWritten (C : Classes) (v : Value) : Prop := ∀ j, toJson C v = .ok j → j.IsFinite

/-- Items that are shown as they are written are so in a row. -/
theorem isFinite_itemsToJson {items : List Value} (h : ∀ v ∈ items, ShownAsWritten C v)
    {js : List Json} (hjs : itemsToJson C items = .ok js) : ∀ j ∈ js, j.IsFinite := by
  induction items generalizing js with
  | nil =>
    cases hjs
    simp
  | cons v rest ih =>
    obtain ⟨hv, hrest⟩ := List.forall_mem_cons.mp h
    obtain ⟨j, hj, hjs⟩ := bind_eq_ok_iff.mp hjs
    obtain ⟨others, hothers, hjs⟩ := bind_eq_ok_iff.mp hjs
    cases hjs
    exact List.forall_mem_cons.mpr ⟨hv j hj, ih hrest hothers⟩

/-- Entries whose values are shown as they are written add such members. -/
theorem isFinite_entriesToJson {entries : List (Value × Value)}
    (h : ∀ e ∈ entries, ShownAsWritten C e.2) {members after : List (String × Json)}
    (hmembers : ∀ p ∈ members, p.2.IsFinite)
    (hafter : entriesToJson C entries members = .ok after) : ∀ p ∈ after, p.2.IsFinite := by
  induction entries generalizing members with
  | nil =>
    rw [entriesToJson] at hafter
    cases hafter
    exact hmembers
  | cons entry rest ih =>
    obtain ⟨k, v⟩ := entry
    obtain ⟨hv, hrest⟩ := List.forall_mem_cons.mp h
    rw [entriesToJson] at hafter
    obtain ⟨key, _, hafter⟩ := bind_eq_ok_iff.mp hafter
    obtain ⟨j, hj, hafter⟩ := bind_eq_ok_iff.mp hafter
    exact ih hrest (Table.forall_set hmembers (hv j hj)) hafter

/-- Fields whose attributes are shown as they are written add such members. -/
theorem isFinite_writeFields {className : String} {attributes : List (String × Value)}
    {fields : List Field} {value : Field → Value}
    (hvalue : ∀ f ∈ fields, Table.get? f.name attributes = some (value f))
    (h : ∀ f ∈ fields, ShownAsWritten C (value f)) {members after : List (String × Json)}
    (hmembers : ∀ p ∈ members, p.2.IsFinite)
    (hafter : fields.foldlM (writeField C className attributes) members = .ok after) :
    ∀ p ∈ after, p.2.IsFinite := by
  induction fields generalizing members with
  | nil =>
    cases hafter
    exact hmembers
  | cons f rest ih =>
    obtain ⟨hf, hrest⟩ := List.forall_mem_cons.mp h
    obtain ⟨hget, hgets⟩ := List.forall_mem_cons.mp hvalue
    obtain ⟨between, hfirst, hafter⟩ := bind_eq_ok_iff.mp hafter
    refine ih hgets hrest ?_ hafter
    rw [writeField, get?_attributesToJson, hget, Option.map_some] at hfirst
    obtain ⟨j, hj, hfirst⟩ := bind_eq_ok_iff.mp hfirst
    cases hfirst
    exact Table.forall_set hmembers (hf j hj)

/-- A record whose attributes are shown as they are written is so itself. -/
theorem shownAsWritten_record {name : String} {shape : Shape} {attributes : List (String × Value)}
    {value : Field → Value} (hshape : C.shape name = .ok shape)
    (hvalue : ∀ f ∈ shape.fields, Table.get? f.name attributes = some (value f))
    (h : ∀ f ∈ shape.fields, ShownAsWritten C (value f)) :
    ShownAsWritten C (.record name attributes) := by
  intro j hj
  have hwritten := hj
  rw [toJson] at hwritten
  obtain ⟨members, hmembers, hwritten⟩ := bind_eq_ok_iff.mp hwritten
  cases hwritten
  obtain ⟨parent, hparent, _⟩ := bind_eq_ok_iff.mp hmembers
  have hfields := (recordMembers_eq_ok_iff hshape (mapError_eq_ok_iff.mp hparent)).mp hj
  refine Json.isFinite_object_iff.mpr (isFinite_writeFields hvalue h ?_ hfields)
  cases parent with
  | none => simp [tagMembers]
  | some hierarchy => simp [tagMembers, Json.IsFinite, Json.finiteOnly]

/-- A value that may be listed is shown as it is written. -/
theorem shownAsWritten_of_isListable {v : Value} (hv : v.IsListable) : ShownAsWritten C v := by
  intro j hj
  cases hv <;> cases hj <;> simp [Json.IsFinite, Json.finiteOnly, *]

/-- A value of a scalar type is shown as it is written. -/
theorem shownAsWritten_of_holds {type : Scalar} {v : Value} (hv : type.Holds v) :
    ShownAsWritten C v := by
  intro j hj
  cases hv <;> cases hj <;> simp [Json.IsFinite, Json.finiteOnly, *]

end Body

/-- What a value of a type is written as is shown as it is. -/
theorem Classes.Inhabits.shownAsWritten {C : Classes} {type : TypeInfo}
    {constraints : List Constraint} {v : Value} (hv : C.Inhabits type constraints v) :
    Body.ShownAsWritten C v := by
  induction hv with
  | null =>
    intro j hj
    cases hj
    rfl
  | scalar hv => exact Body.shownAsWritten_of_holds hv
  | @member name nullable notes constraints e m he hvalues hm =>
    intro j hj
    rw [Body.memberValue, Body.toJson] at hj
    exact Body.shownAsWritten_of_isListable (hvalues m hm) j hj
  | @array container item nullable notes constraints items hfits _ ih =>
    intro j hj
    rw [Body.toJson_hold] at hj
    obtain ⟨js, hjs, rfl⟩ := map_eq_ok_iff.mp hj
    exact Json.isFinite_array_iff.mpr (Body.isFinite_itemsToJson ih hjs)
  | @map item nullable notes constraints entries hkeys _ ih =>
    intro j hj
    rw [Body.toJson] at hj
    obtain ⟨members, hmembers, hj⟩ := bind_eq_ok_iff.mp hj
    cases hj
    refine Json.isFinite_object_iff.mpr (Body.isFinite_entriesToJson ?_ (by simp) hmembers)
    intro e he
    obtain ⟨entry, hentry, rfl⟩ := List.mem_map.mp he
    exact ih entry hentry
  | record hplain hshape hmade hvalue _ ih => exact Body.shownAsWritten_record hshape hvalue ih
  | variant hh hv honly _ ih => exact ih

end HttpContract
