import HttpContract.Document.Basic
import HttpContract.Proofs.Decimal
import HttpContract.Proofs.Schema.References
import Mathlib.Logic.Basic

/-!
# Where a document holds null

A document is written without null as far as attributes that are absent are left out. What is left
are the values of defaults and the values of enumerations, where null is a value like others, a tag
whose description was given as null, and a bound that is not finite: no number is written for it.
-/

namespace HttpContract

/-- Whether a number is finite. -/
def Number.isFinite : Number → Bool
  | .int _ => true
  | .float x => x.isFinite

namespace Json

/-- Whether a key is for something else than a default or the values of an enumeration. -/
def isStructural (key : String) : Bool := key != "default" && key != "enum"

@[simp] theorem isStructural_iff {key : String} :
    isStructural key = true ↔ key ≠ "default" ∧ key ≠ "enum" := by
  simp [isStructural]

/-- Whether null is written somewhere in a value but in defaults and in enumerations. -/
inductive HoldsNull : Json → Prop
  | null : HoldsNull .null
  /-- Not a number and the infinities are written as null. -/
  | number {n : Number} (hn : n.isFinite = false) : HoldsNull (.number n)
  | item {items : List Json} {item : Json} (hitem : item ∈ items) (h : HoldsNull item) :
      HoldsNull (.array items)
  | member {members : List (String × Json)} {p : String × Json} (hp : p ∈ members)
      (hkey : isStructural p.1 = true) (h : HoldsNull p.2) : HoldsNull (.object members)

/-- Whether null is written in the members of an object. -/
def MembersHoldNull (members : List (String × Json)) : Prop :=
  ∃ p ∈ members, isStructural p.1 = true ∧ p.2.HoldsNull

@[simp] theorem not_holdsNull_text (s : String) : ¬(text s).HoldsNull := fun h => (nomatch h)

@[simp] theorem not_holdsNull_bool (b : Bool) : ¬(bool b).HoldsNull := fun h => (nomatch h)

@[simp] theorem holdsNull_number_iff {n : Number} :
    (number n).HoldsNull ↔ n.isFinite = false :=
  ⟨fun | .number hn => hn, .number⟩

@[simp] theorem not_holdsNull_int (n : Int) : ¬(int n).HoldsNull := by
  rw [int, holdsNull_number_iff, Number.isFinite]
  exact Bool.noConfusion

@[simp] theorem holdsNull_array_iff {items : List Json} :
    (array items).HoldsNull ↔ ∃ item ∈ items, item.HoldsNull :=
  ⟨fun | .item hitem h => ⟨_, hitem, h⟩, fun ⟨_, hitem, h⟩ => .item hitem h⟩

@[simp] theorem holdsNull_object_iff {members : List (String × Json)} :
    (object members).HoldsNull ↔ MembersHoldNull members :=
  ⟨fun | .member hp hkey h => ⟨_, hp, hkey, h⟩, fun ⟨_, hp, hkey, h⟩ => .member hp hkey h⟩

@[simp] theorem membersHoldNull_nil : ¬MembersHoldNull [] := fun ⟨_, hp, _⟩ => (nomatch hp)

@[simp] theorem membersHoldNull_cons {key : String} {value : Json}
    {rest : List (String × Json)} : MembersHoldNull ((key, value) :: rest) ↔
      (isStructural key = true ∧ value.HoldsNull) ∨ MembersHoldNull rest := by
  simp [MembersHoldNull]

@[simp] theorem membersHoldNull_map {α : Type} {key : α → String} {value : α → Json}
    {xs : List α} : MembersHoldNull (xs.map fun x => (key x, value x)) ↔
      ∃ x ∈ xs, isStructural (key x) = true ∧ (value x).HoldsNull := by
  simp [MembersHoldNull]

@[simp] theorem membersHoldNull_append {front behind : List (String × Json)} :
    MembersHoldNull (front ++ behind) ↔ MembersHoldNull front ∨ MembersHoldNull behind := by
  simp [MembersHoldNull, or_and_right, exists_or]

@[simp] theorem membersHoldNull_optional {key : String} {value : Option Json} :
    MembersHoldNull (optional key value) ↔
      isStructural key = true ∧ ∃ j, value = some j ∧ j.HoldsNull := by
  cases value <;> simp [optional]

@[simp] theorem not_membersHoldNull_flag {key : String} {value : Bool} :
    ¬MembersHoldNull (flag key value) := by
  cases value <;> simp [flag]

@[simp] theorem membersHoldNull_nonempty {key : String} {items : List Json} :
    MembersHoldNull (nonempty key items) ↔
      isStructural key = true ∧ ∃ item ∈ items, item.HoldsNull := by
  cases items <;> simp [nonempty]

end Json

/-- There is an attribute of a kind if one of the five is. -/
theorem ConstraintAttribute.exists_iff {P : ConstraintAttribute → Prop} :
    (∃ key, P key) ↔ P .minimum ∨ P .maximum ∨ P .minLength ∨ P .maxLength ∨ P .pattern := by
  constructor
  · rintro ⟨key, hkey⟩
    cases key <;> simp [hkey]
  · rintro (h | h | h | h | h) <;> exact ⟨_, h⟩

namespace Schema

/-- The schemas below a schema, but those of properties that are named like a default or like the
values of an enumeration. -/
def shownChildren (s : Schema) : List Schema :=
  s.items.toList ++ ((s.properties.getD []).filter (Json.isStructural ·.1)).map (·.2) ++
    s.additionalProperties.toList ++ s.allOf ++ s.oneOf

/-- Whether a schema shows a value of an attribute that comes from constraints. -/
inductive Shows (limit : Json) : Schema → Prop
  | own {s : Schema} {key : ConstraintAttribute} (h : Table.get? key s.limits = some limit) :
      Shows limit s
  | child {s c : Schema} (hc : c ∈ s.shownChildren) (h : Shows limit c) : Shows limit s

/-- The schemas in a list are written one after the other. -/
theorem listToJson_eq (schemas : List Schema) : listToJson schemas = schemas.map toJson := by
  induction schemas with
  | nil => rfl
  | cons s rest ih => rw [listToJson, ih, List.map_cons]

/-- The schemas of properties are written one after the other. -/
theorem membersToJson_eq (fields : List (String × Schema)) :
    membersToJson fields = fields.map fun p => (p.1, p.2.toJson) := by
  induction fields with
  | nil => rfl
  | cons field rest ih =>
    obtain ⟨name, s⟩ := field
    rw [membersToJson, ih, List.map_cons]

/-- How a schema is written, each attribute by itself. -/
theorem toJson_eq (s : Schema) : s.toJson = .object (
    Json.optional "$ref" (s.reference.map fun name => .text (schemaPath name)) ++
    Json.optional "type" (s.type.map fun t => .text t.word) ++
    Json.optional "format" (s.format.map .text) ++
    Json.flag "nullable" s.nullable ++
    Json.optional "default" (s.default.map Json.finiteOnly) ++
    Json.optional "enum" (s.enumeration.map fun values => .array (Json.finiteItems values)) ++
    Json.optional "minimum" (Table.get? .minimum s.limits) ++
    Json.optional "maximum" (Table.get? .maximum s.limits) ++
    Json.optional "minLength" (Table.get? .minLength s.limits) ++
    Json.optional "maxLength" (Table.get? .maxLength s.limits) ++
    Json.optional "pattern" (Table.get? .pattern s.limits) ++
    Json.optional "items" (s.items.map toJson) ++
    Json.flag "uniqueItems" s.uniqueItems ++
    Json.optional "properties"
      (s.properties.map fun fields => .object (fields.map fun p => (p.1, p.2.toJson))) ++
    Json.nonempty "required" (s.required.map .text) ++
    Json.optional "additionalProperties" (s.additionalProperties.map toJson) ++
    Json.nonempty "allOf" (s.allOf.map toJson) ++
    Json.nonempty "oneOf" (s.oneOf.map toJson) ++
    Json.optional "discriminator" (s.discriminator.map Discriminator.toJson)) := by
  obtain ⟨_, _, _, _, _, _, _, items, _, properties, _, additional, allOf, oneOf, _⟩ := s
  rw [toJson.eq_def]
  cases items <;> cases properties <;> cases additional <;>
    simp only [Option.map_none, Option.map_some, Json.optional, listToJson_eq, membersToJson_eq]

/-- A schema below another one is smaller. -/
theorem sizeOf_lt_of_mem_shownChildren {s c : Schema} (hc : c ∈ s.shownChildren) :
    sizeOf c < sizeOf s := by
  obtain ⟨_, _, _, _, _, _, _, items, _, properties, _, additional, allOf, oneOf, _⟩ := s
  simp only [shownChildren, List.mem_append, Option.mem_toList, List.mem_map, List.mem_filter] at hc
  rcases hc with (((rfl | ⟨p, ⟨hp, _⟩, rfl⟩) | rfl) | hc) | hc
  · simp; omega
  · cases properties with
    | none => cases hp
    | some fields =>
      have hfield := List.sizeOf_lt_of_mem hp
      have hschema : sizeOf p.2 < sizeOf p := by
        obtain ⟨name, c⟩ := p
        simp only [Prod.mk.sizeOf_spec]
        omega
      simp at hfield ⊢
      omega
  · simp; omega
  · have := List.sizeOf_lt_of_mem hc
    simp; omega
  · have := List.sizeOf_lt_of_mem hc
    simp; omega

/-- A schema holds null where one of its own attributes or one of the schemas below does. -/
theorem holdsNull_toJson_iff (s : Schema) : s.toJson.HoldsNull ↔
    (∃ key limit, Table.get? key s.limits = some limit ∧ limit.HoldsNull) ∨
      ∃ c ∈ s.shownChildren, c.toJson.HoldsNull := by
  have hproperties : (∃ fields, s.properties = some fields ∧
      Json.MembersHoldNull (fields.map fun p => (p.1, p.2.toJson))) ↔
      ∃ c ∈ ((s.properties.getD []).filter (Json.isStructural ·.1)).map (·.2),
        c.toJson.HoldsNull := by
    cases s.properties with
    | none => simp
    | some fields =>
      constructor
      · rintro ⟨_, ⟨⟩, hmembers⟩
        obtain ⟨p, hp, hkey, h⟩ := Json.membersHoldNull_map.mp hmembers
        exact ⟨p.2, List.mem_map_of_mem (List.mem_filter.mpr ⟨hp, hkey⟩), h⟩
      · rintro ⟨c, hc, h⟩
        obtain ⟨p, hp, rfl⟩ := List.mem_map.mp hc
        obtain ⟨hp, hkey⟩ := List.mem_filter.mp hp
        exact ⟨fields, rfl, Json.membersHoldNull_map.mpr ⟨p, hp, hkey, h⟩⟩
  have hchildren : (∃ c ∈ s.shownChildren, c.toJson.HoldsNull) ↔
      (∃ c, s.items = some c ∧ c.toJson.HoldsNull) ∨
        (∃ fields, s.properties = some fields ∧
          Json.MembersHoldNull (fields.map fun p => (p.1, p.2.toJson))) ∨
        (∃ c, s.additionalProperties = some c ∧ c.toJson.HoldsNull) ∨
        (∃ c ∈ s.allOf, c.toJson.HoldsNull) ∨ ∃ c ∈ s.oneOf, c.toJson.HoldsNull := by
    rw [hproperties]
    simp only [shownChildren, List.mem_append, Option.mem_toList, or_and_right, exists_or, or_assoc]
  have hdiscriminator (d : Discriminator) : ¬d.toJson.HoldsNull := by
    simp [Discriminator.toJson]
  rw [toJson_eq, hchildren, ConstraintAttribute.exists_iff]
  simp [-Json.membersHoldNull_map, hdiscriminator, or_assoc]

/-- A schema holds null exactly where it shows a value of an attribute that does. -/
theorem holdsNull_toJson_iff_shows (s : Schema) :
    s.toJson.HoldsNull ↔ ∃ limit, s.Shows limit ∧ limit.HoldsNull := by
  constructor
  · intro h
    -- The schemas of properties stand in pairs, so the induction is on the size.
    induction hsize : sizeOf s using Nat.strongRecOn generalizing s with
    | _ size ih =>
      rcases s.holdsNull_toJson_iff.mp h with ⟨key, limit, hlimit, hnull⟩ | ⟨c, hc, hnull⟩
      · exact ⟨limit, .own hlimit, hnull⟩
      · obtain ⟨limit, hshows, hlimit⟩ :=
          ih (sizeOf c) (hsize ▸ sizeOf_lt_of_mem_shownChildren hc) c hnull rfl
        exact ⟨limit, .child hc hshows, hlimit⟩
  · rintro ⟨limit, hshows, hnull⟩
    induction hshows with
    | own hlimit => exact (holdsNull_toJson_iff _).mpr (Or.inl ⟨_, limit, hlimit, hnull⟩)
    | child hc _ ih => exact (holdsNull_toJson_iff _).mpr (Or.inr ⟨_, hc, ih⟩)

end Schema

namespace Operation

/-- The schemas that an operation shows: of its parameters, of its body and of its response. -/
def schemas (o : Operation) : List Schema :=
  o.parameters.map (·.schema) ++ (o.requestBody.map (·.schema)).toList ++ o.response.schema.toList

end Operation

/-- An integer is written without letters, so it is no key of a default or of an enumeration. -/
theorem isStructural_repr (n : Int) : Json.isStructural n.repr = true := by
  have hdigits (m : Nat) : 'e' ∉ m.repr.toList := DecimalText.notMem_repr (by decide) m
  have hletter : 'e' ∉ n.repr.toList := by
    cases n with
    | ofNat m => exact hdigits m
    | negSucc m =>
      have hrepr : (Int.negSucc m).repr = "-" ++ (m + 1).repr := rfl
      rw [hrepr, String.toList_append, List.mem_append, not_or]
      exact ⟨by decide, hdigits (m + 1)⟩
  rw [Json.isStructural_iff]
  constructor
  · intro h
    rw [h] at hletter
    exact hletter (by decide)
  · intro h
    rw [h] at hletter
    exact hletter (by decide)

/-- A parameter holds null where its schema does. -/
theorem Parameter.holdsNull_toJson_iff (p : Parameter) :
    p.toJson.HoldsNull ↔ p.schema.toJson.HoldsNull := by
  simp [toJson]

/-- The content of a body holds null where its schema does. -/
theorem holdsNull_contentOf_iff (s : Schema) : (contentOf s).HoldsNull ↔ s.toJson.HoldsNull := by
  simp [contentOf]

/-- An operation holds null where one of its schemas does. -/
theorem Operation.holdsNull_toJson_iff (o : Operation) :
    o.toJson.HoldsNull ↔ ∃ s ∈ o.schemas, s.toJson.HoldsNull := by
  have hbody (b : RequestBody) : b.toJson.HoldsNull ↔ b.schema.toJson.HoldsNull := by
    simp [RequestBody.toJson, holdsNull_contentOf_iff]
  have hresponse (r : Response) :
      r.toJson.HoldsNull ↔ ∃ s, r.schema = some s ∧ s.toJson.HoldsNull := by
    simp [Response.toJson, holdsNull_contentOf_iff]
  have hstatus := Json.isStructural_iff.mp (isStructural_repr o.response.status)
  have hschemas : (∃ s ∈ o.schemas, s.toJson.HoldsNull) ↔
      (∃ p ∈ o.parameters, p.schema.toJson.HoldsNull) ∨
        (∃ b, o.requestBody = some b ∧ b.schema.toJson.HoldsNull) ∨
        ∃ s, o.response.schema = some s ∧ s.toJson.HoldsNull := by
    simp only [schemas, List.mem_append, or_and_right, exists_or, or_assoc]
    simp
  rw [hschemas]
  simp [toJson, Parameter.holdsNull_toJson_iff, hbody, hresponse, hstatus]

/-- Members hold null where one of their schemas does, if each value does where one of its schemas
does. -/
theorem membersHoldNull_map_iff {α : Type} {members : List (String × α)} {write : α → Json}
    {schemasOf : α → List Schema}
    (hwrite : ∀ a, (write a).HoldsNull ↔ ∃ s ∈ schemasOf a, s.toJson.HoldsNull) :
    Json.MembersHoldNull (members.map fun p => (p.1, write p.2)) ↔
      ∃ s ∈ (members.filter (Json.isStructural ·.1)).flatMap fun p => schemasOf p.2,
        s.toJson.HoldsNull := by
  rw [Json.membersHoldNull_map]
  constructor
  · rintro ⟨p, hp, hkey, hnull⟩
    obtain ⟨s, hs, hnull⟩ := (hwrite p.2).mp hnull
    exact ⟨s, List.mem_flatMap.mpr ⟨p, List.mem_filter.mpr ⟨hp, hkey⟩, hs⟩, hnull⟩
  · rintro ⟨s, hs, hnull⟩
    obtain ⟨p, hp, hs⟩ := List.mem_flatMap.mp hs
    obtain ⟨hp, hkey⟩ := List.mem_filter.mp hp
    exact ⟨p, hp, hkey, (hwrite p.2).mpr ⟨s, hs, hnull⟩⟩

/-- The schemas that the operations of a path show. -/
def PathItem.schemas (item : PathItem) : List Schema :=
  (item.documented.filter (Json.isStructural ·.1)).flatMap fun p => p.2.schemas

namespace Document

/-- The schemas that a document shows: of its operations, and by name. -/
def shownSchemas (d : Document) : List Schema :=
  ((d.paths.filter (Json.isStructural ·.1)).flatMap fun p => PathItem.schemas p.2) ++
    (d.schemas.filter (Json.isStructural ·.1)).flatMap fun p => [p.2]

/-- Whether a document shows a value of an attribute that comes from constraints. -/
def Shows (d : Document) (limit : Json) : Prop := ∃ s ∈ d.shownSchemas, s.Shows limit

/-- A document shows a value that holds null where a schema does that it shows. -/
theorem exists_shows_iff (d : Document) : (∃ limit, d.Shows limit ∧ limit.HoldsNull) ↔
    ∃ s ∈ d.shownSchemas, s.toJson.HoldsNull := by
  constructor
  · rintro ⟨limit, ⟨s, hs, hshows⟩, hnull⟩
    exact ⟨s, hs, s.holdsNull_toJson_iff_shows.mpr ⟨limit, hshows, hnull⟩⟩
  · rintro ⟨s, hs, hnull⟩
    obtain ⟨limit, hshows, hlimit⟩ := s.holdsNull_toJson_iff_shows.mp hnull
    exact ⟨limit, ⟨s, hs, hshows⟩, hlimit⟩

/-- A document holds null exactly where a tag has null for a description, or where a schema shows a
value of an attribute that does. -/
theorem holdsNull_toJson_iff (d : Document) : d.toJson.HoldsNull ↔
    (∃ t ∈ d.tags, t.description = some none) ∨ ∃ limit, d.Shows limit ∧ limit.HoldsNull := by
  have htag (t : Tag) : t.toJson.HoldsNull ↔ t.description = some none := by
    obtain ⟨name, description⟩ := t
    rcases description with _ | _ | text
    · simp [Tag.toJson]
    · simp [Tag.toJson, Json.HoldsNull.null]
    · simp [Tag.toJson]
  have hinfo : ¬d.infoToJson.HoldsNull := by simp [infoToJson]
  have hitem (item : PathItem) : item.toJson.HoldsNull ↔ ∃ s ∈ item.schemas, s.toJson.HoldsNull :=
    Json.holdsNull_object_iff.trans (membersHoldNull_map_iff Operation.holdsNull_toJson_iff)
  have hnamed (s : Schema) : s.toJson.HoldsNull ↔ ∃ c ∈ [s], c.toJson.HoldsNull := by simp
  have hshown : (∃ limit, d.Shows limit ∧ limit.HoldsNull) ↔
      Json.MembersHoldNull (d.paths.map fun p => (p.1, p.2.toJson)) ∨
        Json.MembersHoldNull (d.schemas.map fun p => (p.1, p.2.toJson)) := by
    rw [exists_shows_iff, membersHoldNull_map_iff hitem, membersHoldNull_map_iff hnamed]
    simp only [shownSchemas, List.mem_append, or_and_right, exists_or]
  have hwritten : d.toJson.HoldsNull ↔
      (Json.MembersHoldNull (d.paths.map fun p => (p.1, p.2.toJson)) ∨
        Json.MembersHoldNull (d.schemas.map fun p => (p.1, p.2.toJson))) ∨
        ∃ t ∈ d.tags, t.description = some none := by
    rw [toJson]
    simp [-Json.membersHoldNull_map, hinfo, htag, or_assoc]
  rw [hwritten, hshown, or_comm]

end Document

end HttpContract
