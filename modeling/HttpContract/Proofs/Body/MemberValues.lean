import Mathlib.Data.List.Find
import HttpContract.Proofs.Body.RoundTrip
import HttpContract.Proofs.Schema.EnumeratedValues

/-!
# Members of enumerations in bodies

A body names the member of an enumeration by a JSON value that the member's value equals, or else by
its name. Which JSON values a value equals is told by its data, which is a JSON value itself. Texts,
truth values and numbers are their own data. Identifiers, dates and tuples have none, although the
schema lists JSON forms of them.
-/

namespace HttpContract

/-- Whether two JSON values count as the same: numbers with one exact value do, a truth value being
0 or 1, and objects with the same members in any order. -/
def Json.same (a b : Json) : Bool := (Value.ofJson a).same (Value.ofJson b)

namespace Value

/-- The text that a value equals. -/
def textData? : Value → Option String
  | .text s => some s
  | .member _ _ .text v => v.asText?
  | _ => none

mutual

/-- The data of a value: the JSON value that it equals, if it has the kind of one. -/
def data? : Value → Option Json
  | .null => some .null
  | .bool b => some (.bool b)
  | .number n => some (.number n)
  | .text s => some (.text s)
  | .list items => (itemsData? items).map .array
  | .dict entries => (entriesData? entries).map .object
  | .member _ _ .integer v => v.asNumber?.map .number
  | .member _ _ .text v => v.asText?.map .text
  | _ => none
termination_by structural v => v

/-- The data of items, if all have some. -/
def itemsData? : List Value → Option (List Json)
  | [] => some []
  | v :: vs => (data? v).bind fun d => (itemsData? vs).map (d :: ·)
termination_by structural vs => vs

/-- The data of entries, if all have some and texts for keys. -/
def entriesData? : List (Value × Value) → Option (List (String × Json))
  | [] => some []
  | (k, v) :: rest =>
    k.textData?.bind fun key => (data? v).bind fun d => (entriesData? rest).map ((key, d) :: ·)
termination_by structural entries => entries

end

/-- Members of an object are entries with texts for keys. -/
theorem ofJsonMembers_eq (members : List (String × Json)) :
    ofJsonMembers members = members.map fun p => (.text p.1, ofJson p.2) := by
  induction members with
  | nil => rfl
  | cons p rest ih =>
    obtain ⟨key, j⟩ := p
    rw [ofJsonMembers, ih, List.map_cons]

/-- A value equals the texts that its own text equals. -/
theorem same_text (v : Value) (key : String) :
    v.same (.text key) = v.textData?.any fun s => (Value.text s).same (.text key) := by
  cases v with
  | member enumeration name mixin value =>
    cases mixin with
    | plain => rfl
    | integer =>
      have hnumber : (value.asNumber?.any fun n => countsAs n (.text key)) = false := by
        cases value.asNumber? <;> rfl
      exact hnumber
    | text => rfl
  | null | bool b | number n | text s | list items | tuple items | set frozen items | dict entries
  | uuid u | date d | dateTime t | record c attributes | decimal t | bytes data | opaqueObject =>
    rfl

/-- Entries with data are as many as the members of the data. -/
theorem length_of_entriesData? {entries : List (Value × Value)} {ds : List (String × Json)}
    (h : entriesData? entries = some ds) : ds.length = entries.length := by
  induction entries generalizing ds with
  | nil =>
    cases h
    rfl
  | cons entry rest ih =>
    obtain ⟨_, _, h⟩ := Option.bind_eq_some_iff.mp h
    obtain ⟨_, _, h⟩ := Option.bind_eq_some_iff.mp h
    obtain ⟨others, hothers, rfl⟩ := Option.map_eq_some_iff.mp h
    rw [List.length_cons, List.length_cons, ih hothers]

variable {C : Classes}

mutual

/-- A value that has a JSON form equals the JSON values that count as the same as its data. -/
theorem same_ofJson (v : Value) {form : Json} (hform : Body.toJson C v = .ok form) (j : Json) :
    v.same (.ofJson j) = v.data?.any (·.same j) := by
  cases v with
  | null | bool b | number n | text s => rfl
  | list items =>
    rw [Body.toJson] at hform
    obtain ⟨forms, hforms, _⟩ := bind_eq_ok_iff.mp hform
    rw [data?]
    cases j with
    | array js =>
      refine (sameItems_ofJson items hforms js).trans ?_
      cases itemsData? items <;> rfl
    | null | bool b | number n | text s | object members => cases itemsData? items <;> rfl
  | dict entries =>
    rw [Body.toJson] at hform
    obtain ⟨members, hmembers, _⟩ := bind_eq_ok_iff.mp hform
    rw [data?]
    cases j with
    | object ms =>
      rw [ofJson, same, includesEntries_ofJson entries hmembers ms]
      cases hdata : entriesData? entries with
      | none => simp
      | some ds =>
        have hlength : (ofJsonMembers ds).length = entries.length := by
          rw [ofJsonMembers_eq, List.length_map, length_of_entriesData? hdata]
        rw [← hlength]
        rfl
    | null | bool b | number n | text s | array items => cases entriesData? entries <;> rfl
  | member enumeration name mixin value =>
    have hother : isMember enumeration name (.ofJson j) = false := by cases j <;> rfl
    cases mixin with
    | plain => rw [same, hother]; rfl
    | integer =>
      rw [same, hother, data?]
      cases value.asNumber? <;> rfl
    | text =>
      rw [same, hother, data?]
      cases value.asText? <;> rfl
  | tuple items | set frozen items | uuid u | date d | dateTime t | record c attributes =>
    cases j <;> rfl
  | decimal t | bytes data | opaqueObject => cases hform
termination_by structural v

/-- Items that have JSON forms equal the items that count as the same as their data. -/
theorem sameItems_ofJson (items : List Value) {forms : List Json}
    (hforms : Body.itemsToJson C items = .ok forms) (js : List Json) :
    sameItems items (ofJsonItems js) =
      (itemsData? items).any fun ds => sameItems (ofJsonItems ds) (ofJsonItems js) := by
  cases items with
  | nil => cases js <;> rfl
  | cons v rest =>
    rw [Body.itemsToJson] at hforms
    obtain ⟨form, hform, hforms⟩ := bind_eq_ok_iff.mp hforms
    obtain ⟨others, hothers, _⟩ := bind_eq_ok_iff.mp hforms
    rw [itemsData?]
    cases js with
    | nil => cases data? v <;> cases itemsData? rest <;> rfl
    | cons j js =>
      rw [ofJsonItems, sameItems, same_ofJson v hform j, sameItems_ofJson rest hothers js]
      cases data? v <;> cases itemsData? rest <;> simp [Json.same, ofJsonItems, sameItems]
termination_by structural items

/-- Entries whose values have JSON forms are among members when their data are. -/
theorem includesEntries_ofJson (entries : List (Value × Value))
    {before after : List (String × Json)}
    (hafter : Body.entriesToJson C entries before = .ok after) (ms : List (String × Json)) :
    includesEntries (ofJsonMembers ms) entries = (entriesData? entries).any fun ds =>
      includesEntries (ofJsonMembers ms) (ofJsonMembers ds) := by
  cases entries with
  | nil => rfl
  | cons entry rest =>
    obtain ⟨k, v⟩ := entry
    rw [Body.entriesToJson] at hafter
    obtain ⟨_, _, hafter⟩ := bind_eq_ok_iff.mp hafter
    obtain ⟨form, hform, hafter⟩ := bind_eq_ok_iff.mp hafter
    have hentry : ((ofJsonMembers ms).any fun y => k.same y.1 && v.same y.2) =
        (k.textData?.bind fun key => (data? v).map ((key, ·))).any fun d =>
          (ofJsonMembers ms).any fun y => (text d.1).same y.1 && (ofJson d.2).same y.2 := by
      rw [ofJsonMembers_eq, List.any_map]
      simp only [Function.comp_def, List.any_map, same_text k, same_ofJson v hform]
      cases k.textData? <;> cases data? v <;> simp [Json.same]
    rw [entriesData?, includesEntries, hentry, includesEntries_ofJson rest hafter ms]
    cases k.textData? <;> cases data? v <;> cases entriesData? rest <;>
      simp [ofJsonMembers, includesEntries]
termination_by structural entries

end

/-- Whether a value equals a JSON value, told from its data. -/
def takes (v : Value) (j : Json) : Bool := v.data?.any (·.same j)

/-- A value takes a text when this is its data. -/
theorem takes_text_iff {v : Value} {s : String} :
    v.takes (.text s) = true ↔ v.data? = some (.text s) := by
  rw [takes, Option.any_eq_true]
  constructor
  · rintro ⟨d, hdata, hsame⟩
    cases d with
    | text t =>
      have htexts : (some s == some t) = true := hsame
      rw [hdata, Option.some.inj (beq_iff_eq.mp htexts)]
    | null | bool b | number n | array items | object members => cases hsame
  · intro hdata
    exact ⟨.text s, hdata, beq_self_eq_true (some s)⟩

end Value

namespace Enumeration

/-- Whether a member is the first one whose value has a property. -/
def IsFirst (e : Enumeration) (p : Value → Bool) (m : String × Value) : Prop :=
  ∃ front behind, e.members = front ++ m :: behind ∧ p m.2 = true ∧
    ∀ earlier ∈ front, p earlier.2 = false

/-- The first member with a property is a member. -/
theorem IsFirst.mem {e : Enumeration} {p : Value → Bool} {m : String × Value}
    (h : e.IsFirst p m) : m ∈ e.members := by
  obtain ⟨front, behind, hmembers, _⟩ := h
  rw [hmembers]
  exact List.mem_append_right _ List.mem_cons_self

/-- The first member with a property is the one that is found by it. -/
theorem isFirst_iff {e : Enumeration} {p : Value → Bool} {m : String × Value} :
    e.IsFirst p m ↔ e.members.find? (fun other => p other.2) = some m := by
  rw [List.find?_eq_some_iff_append]
  constructor
  · rintro ⟨front, behind, hmembers, hm, hfront⟩
    exact ⟨hm, front, behind, hmembers, fun earlier h => by simp [hfront earlier h]⟩
  · rintro ⟨hm, front, behind, hmembers, hfront⟩
    exact ⟨front, behind, hmembers, hm, fun earlier h => by simpa using hfront earlier h⟩

/-- Whether a JSON value is the name of a member, and no text that is the data of a member. -/
def IsNamed (e : Enumeration) (j : Json) (m : String × Value) : Prop :=
  ∃ s, j = .text s ∧ (∀ other ∈ e.members, other.2.data? ≠ some (.text s)) ∧ e.find? s = some m

end Enumeration

namespace Body

variable {C : Classes} {name path : String} {e : Enumeration} {v : Value}

/-- A JSON value that no member's value takes is read when it names a member. -/
theorem readMember_of_not_taken {j : Json}
    (hnone : e.members.find? (fun m => m.2.same (.ofJson j)) = none) :
    readMember name e path j = .ok v ↔
      ∃ s m, j = .text s ∧ e.find? s = some m ∧ v = memberValue name e m := by
  unfold readMember
  rw [hnone]
  cases j with
  | text s =>
    dsimp only
    cases hnamed : e.find? s with
    | some m =>
      constructor
      · intro h
        cases h
        exact ⟨s, m, rfl, hnamed, rfl⟩
      · rintro ⟨_, other, ⟨⟩, hother, rfl⟩
        rw [Option.some.inj (hnamed.symm.trans hother)]
    | none =>
      refine iff_of_false nofun ?_
      rintro ⟨_, other, ⟨⟩, hother, rfl⟩
      cases hnamed.symm.trans hother
  | null | bool b | number n | array items | object members =>
    exact iff_of_false nofun (by rintro ⟨_, _, ⟨⟩, _⟩)

/-- The reader of members reads the first one whose value takes the JSON value, or else the one that
a text names. -/
theorem readMember_eq_ok_iff {listed : List Json}
    (hlisted : e.members.mapM (fun m => toJson C m.2) = .ok listed) {j : Json} :
    readMember name e path j = .ok v ↔
      ∃ m, v = memberValue name e m ∧ (e.IsFirst (·.takes j) m ∨ e.IsNamed j m) := by
  have hfind : e.members.find? (fun m => m.2.same (.ofJson j)) =
      e.members.find? fun m => m.2.takes j := by
    refine List.find?_congr fun m hm => ?_
    obtain ⟨form, _, hform⟩ := exists_mem_of_mapM hlisted hm
    exact Value.same_ofJson m.2 hform j
  simp only [Enumeration.isFirst_iff]
  cases hfound : e.members.find? fun m => m.2.takes j with
  | some first =>
    have hread : readMember name e path j = .ok (memberValue name e first) := by
      unfold readMember
      rw [hfind, hfound]
    rw [hread]
    constructor
    · intro h
      cases h
      exact ⟨first, rfl, Or.inl rfl⟩
    · rintro ⟨m, rfl, hm | ⟨s, rfl, hnone, _⟩⟩
      · rw [Option.some.inj hm]
      · have htakes : first.2.takes (.text s) = true := by
          simpa using List.find?_some hfound
        have hmem := List.mem_of_find?_eq_some hfound
        exact absurd (Value.takes_text_iff.mp htakes) (hnone first hmem)
  | none =>
    have hnone : ∀ m ∈ e.members, m.2.takes j = false := by simpa using hfound
    rw [readMember_of_not_taken (hfind.trans hfound)]
    constructor
    · rintro ⟨s, m, rfl, hnamed, rfl⟩
      refine ⟨m, rfl, Or.inr ⟨s, rfl, fun other hother hdata => ?_, hnamed⟩⟩
      rw [← Value.takes_text_iff, hnone other hother] at hdata
      cases hdata
    · rintro ⟨m, rfl, hm | ⟨s, rfl, _, hnamed⟩⟩
      · cases hm
      · exact ⟨s, m, rfl, hnamed, rfl⟩

/-- The members that bodies name. Take an enumeration whose schema is registered after calls that
all end well, and the values that the schema lists. A JSON value other than null is read as a member
just when this is the first member whose value has data that counts as the same, or when the JSON
value is a text that is the data of no member's value, and a name of the member. A listed value
other than null that is the value of its member and equals itself is read as this member. -/
theorem readValue_member_iff {calls : List BuildCall} {returned : List Schema} {b : SchemaBuilder}
    (hrun : (BuildCall.performAll C calls).run {} = .ok returned b)
    (hregistered : name ∈ b.registry.entries.map (·.owner)) {s : Schema}
    (hs : b.registry.schema? (C.schemaNameOf name) = some s) (he : C.enumeration? name = some e)
    {listed : List Json} (hlisted : s.enumeration = some listed) (nullable : Bool)
    (notes : List Note) :
    (∀ j path v, j ≠ .null →
      (readValue C (.leaf (.enumeration name) nullable notes) j path = .ok v ↔
        ∃ m, v = memberValue name e m ∧ (e.IsFirst (·.takes j) m ∨ e.IsNamed j m))) ∧
    ∀ p ∈ e.members.zip listed, p.1.2 = .ofJson p.2 → p.2 ≠ .null → p.2.same p.2 = true → ∀ path,
      readValue C (.leaf (.enumeration name) nullable notes) p.2 path =
        .ok (memberValue name e p.1) := by
  have hread : ∀ j path, j ≠ .null →
      readValue C (.leaf (.enumeration name) nullable notes) j path = readMember name e path j := by
    intro j path hj
    rw [readValue, read_leaf hj rfl, readLeaf, he]
  obtain ⟨hvalues, _⟩ := BuildCall.listed_performAll hrun hregistered hs he hlisted
  refine ⟨fun j path v hj => ?_, fun p hp hown hnull hself path => ?_⟩
  · rw [hread j path hj]
    exact readMember_eq_ok_iff hvalues
  · have hsame : p.1.2.same p.1.2 = true := by
      rw [hown]
      exact hself
    rw [hread p.2 path hnull]
    exact readMember_own (List.of_mem_zip hp).1 hown.symm hsame

end Body

/-- An enumeration of a number and a date. -/
def Classes.milestones : Classes :=
  ({} : Classes).define
    { name := "Milestone",
      body := .enumeration ⟨.plain, [("START", .int 1), ("NEW_YEAR", .date ⟨2024, 1, 1⟩)]⟩ }

/-- The schema of milestones lists the number and the text of the date. -/
theorem Classes.registered_milestones : ∃ returned b s,
    (BuildCall.performAll milestones [.hint (.named "Milestone")]).run {} = .ok returned b ∧
      "Milestone" ∈ b.registry.entries.map (·.owner) ∧
      b.registry.schema? "Milestone" = some s ∧
      s.enumeration = some [.int 1, .text "2024-01-01"] := by
  refine ⟨_, _, _, rfl, List.mem_cons_self, rfl, ?_⟩
  rfl

/-- The truth value counts as the number that is listed, and the text that is listed as nothing. -/
theorem Body.readValue_member_iff_milestones :
    let type : TypeInfo := .leaf (.enumeration "Milestone") false []
    let start : Value := .member "Milestone" "START" .plain (.int 1)
    ∃ returned b s,
      (BuildCall.performAll Classes.milestones [.hint (.named "Milestone")]).run {} =
        .ok returned b ∧
      b.registry.schema? "Milestone" = some s ∧
      s.enumeration = some [.int 1, .text "2024-01-01"] ∧
      readValue Classes.milestones type (.int 1) "" = .ok start ∧
      readValue Classes.milestones type (.bool true) "" = .ok start ∧
      ∀ v, readValue Classes.milestones type (.text "2024-01-01") "" ≠ .ok v := by
  intro type start
  obtain ⟨returned, b, s, hrun, hregistered, hs, hlisted⟩ := Classes.registered_milestones
  let e : Enumeration :=
    ⟨.plain, [("START", .int 1), ("NEW_YEAR", .date ⟨2024, 1, 1⟩)]⟩
  have he : Classes.milestones.enumeration? "Milestone" = some e := rfl
  have hmembers : e.members = e.names := rfl
  obtain ⟨hread, hown⟩ := readValue_member_iff hrun hregistered hs he hlisted false []
  refine ⟨returned, b, s, hrun, hs, hlisted, ?_, ?_, fun v hv => ?_⟩
  · exact hown (("START", .int 1), .int 1) List.mem_cons_self rfl nofun rfl ""
  · refine (hread (.bool true) "" start nofun).mpr ⟨("START", .int 1), rfl, Or.inl ?_⟩
    exact ⟨[], [("NEW_YEAR", .date ⟨2024, 1, 1⟩)], hmembers, rfl, nofun⟩
  · obtain ⟨m, _, hfirst | hnamed⟩ := (hread (.text "2024-01-01") "" v nofun).mp hv
    · obtain ⟨_, _, _, htakes, _⟩ := id hfirst
      rw [Value.takes_text_iff] at htakes
      obtain rfl | rfl : m = ("START", .int 1) ∨ m = ("NEW_YEAR", .date ⟨2024, 1, 1⟩) := by
        simpa [hmembers, e] using hfirst.mem
      · cases htakes
      · cases htakes
    · obtain ⟨_, ⟨⟩, _, hfound⟩ := hnamed
      cases hfound

end HttpContract
