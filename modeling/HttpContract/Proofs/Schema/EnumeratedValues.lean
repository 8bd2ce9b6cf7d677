import HttpContract.Proofs.Body.Finite
import HttpContract.Proofs.Schema.Orders

/-!
# The values that a schema lists

The schema of an enumeration lists the JSON forms of the values of its members, and it has a type.
The type is chosen among those of texts and of numbers, so that it is the type of all listed values
just when one of these is.
-/

namespace HttpContract

/-- Whether a JSON value is of a type. An integer is a number as well. -/
def SchemaType.describes : SchemaType → Json → Bool
  | .text, .text _ => true
  | .integer, .number (.int _) => true
  | .number, .number _ => true
  | .boolean, .bool _ => true
  | .array, .array _ => true
  | .object, .object _ => true
  | _, _ => false

/-- Whether all JSON values of a list are of a type. -/
def SchemaType.DescribesAll (type : SchemaType) (values : List Json) : Prop :=
  ∀ j ∈ values, type.describes j = true

namespace Json

/-- A document shows items one by one. -/
theorem finiteItems_eq (items : List Json) : finiteItems items = items.map finiteOnly := by
  induction items with
  | nil => rfl
  | cons item rest ih => rw [finiteItems, ih, List.map_cons]

/-- Only an integer is shown as an integer. -/
theorem isInteger_of_shown {j : Json} (h : SchemaType.integer.describes j.finiteOnly = true) :
    SchemaBuilder.isInteger j = true := by
  cases j with
  | number n =>
    cases n with
    | int n => rfl
    | float x =>
      rw [finiteOnly] at h
      split at h <;> cases h
  | null | bool b | text s | array items | object members => cases h

/-- Only a number is shown as a number. -/
theorem isNumber_of_shown {j : Json} (h : SchemaType.number.describes j.finiteOnly = true) :
    SchemaBuilder.isNumber j = true := by
  cases j with
  | number n => rfl
  | null | bool b | text s | array items | object members => cases h

/-- An integer is shown as one. -/
theorem describes_of_isInteger {j : Json} (h : SchemaBuilder.isInteger j = true) :
    SchemaType.integer.describes j.finiteOnly = true := by
  cases j with
  | number n =>
    cases n with
    | int n => rfl
    | float x => cases h
  | null | bool b | text s | array items | object members => cases h

/-- A number is not shown as a text. -/
theorem not_describes_of_isNumber {j : Json} (h : SchemaBuilder.isNumber j = true) :
    SchemaType.text.describes j.finiteOnly = false := by
  cases j with
  | number n =>
    cases n with
    | int n => rfl
    | float x =>
      rw [finiteOnly]
      split <;> rfl
  | null | bool b | text s | array items | object members => cases h

/-- What is shown as an integer is shown as a number. -/
theorem number_of_integer {j : Json} (h : SchemaType.integer.describes j = true) :
    SchemaType.number.describes j = true := by
  cases j with
  | number n => rfl
  | null | bool b | text s | array items | object members => cases h

end Json

namespace SchemaBuilder

/-- The type that is chosen for values is the type of all that is shown of them just when all are
shown as texts or all as numbers, and it is that of integers when all are shown as integers. -/
theorem valuesType_describesAll_iff (values : List Json) :
    ((valuesType values).DescribesAll (Json.finiteItems values) ↔
      SchemaType.text.DescribesAll (Json.finiteItems values) ∨
        SchemaType.number.DescribesAll (Json.finiteItems values)) ∧
      (SchemaType.integer.DescribesAll (Json.finiteItems values) →
        valuesType values = .integer) := by
  simp only [SchemaType.DescribesAll, Json.finiteItems_eq, List.forall_mem_map]
  unfold valuesType
  by_cases hintegers : values.all isInteger = true
  · rw [if_pos hintegers]
    have hall : ∀ j ∈ values, SchemaType.integer.describes j.finiteOnly = true := fun j hj =>
      Json.describes_of_isInteger (List.all_eq_true.mp hintegers j hj)
    have hnumbers : ∀ j ∈ values, SchemaType.number.describes j.finiteOnly = true := fun j hj =>
      Json.number_of_integer (hall j hj)
    exact ⟨iff_of_true hall (Or.inr hnumbers), fun _ => rfl⟩
  · have hnone : ¬∀ j ∈ values, SchemaType.integer.describes j.finiteOnly = true := fun h =>
      hintegers (List.all_eq_true.mpr fun j hj => Json.isInteger_of_shown (h j hj))
    refine ⟨?_, fun h => absurd h hnone⟩
    rw [if_neg hintegers]
    by_cases hnumbers : values.all isNumber = true
    · rw [if_pos hnumbers]
      refine ⟨Or.inr, ?_⟩
      rintro (htexts | hshown)
      · intro j hj
        have hnot := Json.not_describes_of_isNumber (List.all_eq_true.mp hnumbers j hj)
        rw [htexts j hj] at hnot
        cases hnot
      · exact hshown
    · rw [if_neg hnumbers]
      refine ⟨Or.inl, ?_⟩
      rintro (htexts | hshown)
      · exact htexts
      · exact absurd
          (List.all_eq_true.mpr fun j hj => Json.isNumber_of_shown (hshown j hj)) hnumbers

end SchemaBuilder

namespace Classes

variable {C : Classes}

/-- The values of members are listed one after the other. -/
theorem listedValues_eq (members : List (String × Value)) :
    C.listedValues members = members.mapM fun member => Body.toJson C member.2 := by
  induction members with
  | nil => rfl
  | cons member rest ih => rw [listedValues, ih, List.mapM_cons]

/-- Only the body of an enumeration lists values at its top. -/
theorem eq_enumeration_of_listed {form : Leaf} {s : Schema} (hs : C.bodyOf form = .ok s)
    (hlisted : s.enumeration ≠ none) : form = .enumeration form.label := by
  cases form with
  | enumeration name => rfl
  | scalar type =>
    cases hs
    cases type <;> exact absurd rfl hlisted
  | any =>
    cases hs
    exact absurd rfl hlisted
  | record name =>
    obtain ⟨_, _, _, _, _, _, rfl⟩ := bodyOf_record_eq_ok hs
    exact absurd rfl hlisted
  | polymorphic name =>
    obtain ⟨_, _, hs⟩ := bind_eq_ok_iff.mp hs
    cases hs
    exact absurd rfl hlisted

end Classes

namespace BuildCall

variable {C : Classes} {calls : List BuildCall} {returned : List Schema} {b : SchemaBuilder}
  {name : String} {s : Schema} {e : Enumeration} {listed : List Json}

/-- The schema that is registered for an enumeration lists the JSON forms of the values of its
members. -/
theorem listed_performAll (hrun : (performAll C calls).run {} = .ok returned b)
    (hregistered : name ∈ b.registry.entries.map (·.owner))
    (hs : b.registry.schema? (C.schemaNameOf name) = some s) (he : C.enumeration? name = some e)
    (hlisted : s.enumeration = some listed) :
    e.members.mapM (fun member => Body.toJson C member.2) = .ok listed ∧
      s.type = some (SchemaBuilder.valuesType listed) := by
  obtain ⟨met, _, hholds, howners⟩ := holds_performAll hrun
  rw [howners] at hregistered
  obtain ⟨form, _, rfl, hbody⟩ := hholds.exists_body hregistered hs
  rw [Classes.eq_enumeration_of_listed hbody (by simp [hlisted])] at hbody
  obtain ⟨values, hvalues, hbody⟩ := bind_eq_ok_iff.mp hbody
  cases hbody
  obtain rfl : values = listed := Option.some.inj hlisted
  rw [he, Classes.listedValues_eq] at hvalues
  exact ⟨hvalues, rfl⟩

/-- The type in the schema of an enumeration. After any calls that all end well, the schema that is
registered for an enumeration shows the JSON forms of the values of its members, as far as they are
finite, and a type. This is the type of all values that are shown just when all of them are texts or
all of them are numbers; and it is that of integers when all of them are integers. -/
theorem typed_performAll (hrun : (performAll C calls).run {} = .ok returned b)
    (hregistered : name ∈ b.registry.entries.map (·.owner))
    (hs : b.registry.schema? (C.schemaNameOf name) = some s) (he : C.enumeration? name = some e)
    (hlisted : s.enumeration = some listed) :
    e.members.mapM (fun member => Body.toJson C member.2) = .ok listed ∧
      ∃ type : SchemaType, let shown := listed.map Json.finiteOnly
        s.toJson.member? "type" = some (.text type.word) ∧
        s.toJson.member? "enum" = some (.array shown) ∧
        (type.DescribesAll shown ↔
          SchemaType.text.DescribesAll shown ∨ SchemaType.number.DescribesAll shown) ∧
        (SchemaType.integer.DescribesAll shown → type = .integer) := by
  obtain ⟨hvalues, htype⟩ := listed_performAll hrun hregistered hs he hlisted
  obtain ⟨hword, _, henum⟩ := s.member?_toJson
  obtain ⟨hfits, hintegers⟩ := SchemaBuilder.valuesType_describesAll_iff listed
  rw [htype] at hword
  rw [hlisted, Option.map_some, Json.finiteItems_eq] at henum
  rw [Json.finiteItems_eq] at hfits hintegers
  exact ⟨hvalues, _, hword, henum, hfits, hintegers⟩

end BuildCall

/-- An enumeration whose values are neither all texts nor all numbers. -/
def Classes.mixed : Classes :=
  ({} : Classes).define
    { name := "Size", body := .enumeration ⟨.plain, [("NONE", .int 0), ("LARGE", .text "L")]⟩ }

/-- The type says that the values are texts, and the first one that is shown is an integer. -/
theorem BuildCall.typed_performAll_mixed :
    ∃ returned b s, ∃ type : SchemaType,
      (performAll Classes.mixed [.hint (.named "Size")]).run {} = .ok returned b ∧
      b.registry.schema? "Size" = some s ∧ s.toJson.member? "type" = some (.text type.word) ∧
      s.toJson.member? "enum" = some (.array [.int 0, .text "L"]) ∧
      ¬type.DescribesAll [.int 0, .text "L"] := by
  have hbuilt : ∃ returned b s,
      (performAll Classes.mixed [.hint (.named "Size")]).run {} = .ok returned b ∧
      "Size" ∈ b.registry.entries.map (·.owner) ∧ b.registry.schema? "Size" = some s ∧
      s.enumeration = some [.int 0, .text "L"] := by
    refine ⟨_, _, _, rfl, List.mem_cons_self, rfl, ?_⟩
    rfl
  obtain ⟨returned, b, s, hrun, hregistered, hs, hlisted⟩ := hbuilt
  obtain ⟨_, type, hword, henum, hfits, _⟩ :=
    typed_performAll hrun hregistered hs rfl hlisted
  refine ⟨returned, b, s, type, hrun, hs, hword, henum, fun hall => ?_⟩
  rcases hfits.mp hall with htexts | hnumbers
  · exact absurd (htexts (.int 0) (by simp [Json.finiteOnly, Json.int])) (by decide)
  · exact absurd (hnumbers (.text "L") (by simp [Json.finiteOnly, Json.int])) (by decide)

end HttpContract
