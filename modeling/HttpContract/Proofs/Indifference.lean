import HttpContract.Dispatch
import HttpContract.Proofs.Settling

/-!
# Serving with more hierarchies settled

The hierarchy of a base is settled when a request first asks for it. What is read of a request, and
what is written of a result, stays the same whichever hierarchies were settled before, since
settling changes no hierarchy.
-/

namespace HttpContract

variable (C : Classes) (settled : List Hierarchy)

namespace Body

mutual

/-- Whether a value has a hash does not depend on what is settled. -/
theorem unhashable?_settled (v : Value) :
    unhashable? { C with settled } v = unhashable? C v := by
  cases v with
  | tuple items =>
    rw [unhashable?, unhashable?]
    exact firstUnhashable_settled items
  | record className attributes =>
    rw [unhashable?, unhashable?, firstUnhashableAttribute_settled attributes]
    rfl
  | set frozen items => cases frozen <;> rfl
  | _ => rfl

/-- The same for several values. -/
theorem firstUnhashable_settled (vs : List Value) :
    unhashable?.firstUnhashable { C with settled } vs = unhashable?.firstUnhashable C vs := by
  cases vs with
  | nil => rfl
  | cons v rest =>
    rw [unhashable?.firstUnhashable, unhashable?.firstUnhashable, unhashable?_settled v,
      firstUnhashable_settled rest]

/-- The same for attributes. -/
theorem firstUnhashableAttribute_settled (attributes : List (String × Value)) :
    unhashable?.firstUnhashableAttribute { C with settled } attributes =
      unhashable?.firstUnhashableAttribute C attributes := by
  cases attributes with
  | nil => rfl
  | cons entry rest =>
    obtain ⟨name, v⟩ := entry
    rw [unhashable?.firstUnhashableAttribute, unhashable?.firstUnhashableAttribute,
      unhashable?_settled v, firstUnhashableAttribute_settled rest]

end

/-- Containers hold the same items whatever is settled. -/
theorem contain_settled : contain { C with settled } = contain C := by
  have hhash : unhashable? { C with settled } = unhashable? C :=
    funext (unhashable?_settled C settled)
  unfold contain
  rw [hhash]

end Body

namespace ModelCheck

variable {build : String → List (Value × Value) → Except String Value}

mutual

/-- A model checks a value alike whatever is settled. -/
theorem value_settled (rules : List FieldRule) (hint : Hint) (v : Value) :
    value { C with settled } build rules hint v = value C build rules hint v := by
  cases hint with
  | annotated base notes =>
    rw [value, value]
    exact value_settled _ base v
  | union bars members =>
    cases v <;> first | rfl | exact firstMember_settled rules members _
  | collection type item =>
    have hitem : value { C with settled } build [] item = value C build [] item :=
      funext (value_settled [] item)
    rw [value, value, hitem]
  | mapping type key item =>
    have hkey : value { C with settled } build [] key = value C build [] key :=
      funext (value_settled [] key)
    have hitem : value { C with settled } build [] item = value C build [] item :=
      funext (value_settled [] item)
    cases v <;> simp only [value, hkey, hitem]
  | any | forward | builtin | none | noneType | bareCollection | bareMapping | fixedTuple =>
    simp only [value]
  | named name =>
    simp only [value]
    rfl

/-- So it does against the first member of a union. -/
theorem firstMember_settled (rules : List FieldRule) (members : List Hint) (v : Value) :
    firstMember { C with settled } build rules members v = firstMember C build rules members v := by
  cases members with
  | nil => rfl
  | cons member rest =>
    cases member with
    | noneType => exact firstMember_settled rules rest v
    | _ => exact value_settled rules _ v

end

end ModelCheck

namespace Classes

/-- A model makes the same attributes whatever is settled. -/
theorem modelAttributes_settled (build : String → List (Value × Value) → Except String Value) :
    ({ C with settled } : Classes).modelAttributes build = C.modelAttributes build := by
  have hvalue : ModelCheck.value { C with settled } build = ModelCheck.value C build := by
    funext rules hint v
    exact ModelCheck.value_settled C settled rules hint v
  have hattribute :
      ({ C with settled } : Classes).modelAttribute build = C.modelAttribute build := by
    unfold modelAttribute
    rw [hvalue]
    rfl
  unfold modelAttributes
  rw [hattribute]
  rfl

/-- The same records are made of dictionaries whatever is settled. -/
theorem buildNested_settled (depth : Nat) :
    ({ C with settled } : Classes).buildNested depth = C.buildNested depth := by
  induction depth with
  | zero => rfl
  | succ depth ih =>
    funext className entries
    rw [buildNested, buildNested, ih, modelAttributes_settled]
    rfl

/-- The same records are made whatever is settled. -/
theorem construct_settled : ({ C with settled } : Classes).construct = C.construct := by
  have hnested : ({ C with settled } : Classes).buildNested = C.buildNested :=
    funext (C.buildNested_settled settled)
  unfold construct
  rw [hnested]
  simp only [modelAttributes_settled]
  rfl

end Classes

/-- Texts are parsed as the same values whatever is settled. -/
theorem ScalarParser.parseEach_settled :
    ScalarParser.parseEach { C with settled } = ScalarParser.parseEach C := by
  have hone : ScalarParser.parseOne { C with settled } = ScalarParser.parseOne C := rfl
  funext item name texts
  induction texts with
  | nil => rfl
  | cons text rest ih => rw [parseEach, parseEach, ih, hone]

/-- A parser builds the same value whatever is settled. -/
theorem FlatParser.build_settled : FlatParser.build { C with settled } = FlatParser.build C := by
  unfold build
  rw [Body.contain_settled, ScalarParser.parseEach_settled]
  rfl

/-- A parser of records builds the same record whatever is settled. -/
theorem ObjectParser.build_settled :
    ObjectParser.build { C with settled } = ObjectParser.build C := by
  unfold build bindValues
  rw [Classes.construct_settled, FlatParser.build_settled]

/-- A binder makes the same record whatever is settled. -/
theorem Binder.bind_settled : Binder.bind { C with settled } = Binder.bind C := by
  unfold bind bindFrom ParameterParser.build
  rw [Classes.construct_settled, FlatParser.build_settled, ObjectParser.build_settled]

/-- Whether what is settled agrees with the hierarchies of a table. -/
def Classes.Agrees (C : Classes) (settled : List Hierarchy) : Prop :=
  ({ C with settled } : Classes).hierarchy = C.hierarchy

namespace Body

variable {C : Classes} {settled : List Hierarchy}

/-- An object is read as the same variant. -/
theorem readVariant_settled (h : C.Agrees settled) :
    readVariant { C with settled } = readVariant C := by
  unfold readVariant readRecord
  rw [show ({ C with settled } : Classes).hierarchy = C.hierarchy from h,
    Classes.construct_settled, funext (C.shape_settled settled)]

mutual

/-- A JSON value has the same reader. -/
theorem read_settled (h : C.Agrees settled) (data : Json) :
    read { C with settled } data = read C data := by
  cases data with
  | array items =>
    rw [read, read, itemReaders_settled h items, contain_settled]
    rfl
  | object members =>
    have hrecord : readRecord { C with settled } = readRecord C := by
      unfold readRecord
      rw [Classes.construct_settled]
    rw [read, read, memberReaders_settled h members, readVariant_settled h, hrecord,
      funext (C.shape_settled settled)]
    rfl
  | null | bool b | number n | text s => rfl

/-- So have several items. -/
theorem itemReaders_settled (h : C.Agrees settled) (items : List Json) :
    itemReaders { C with settled } items = itemReaders C items := by
  cases items with
  | nil => rfl
  | cons item rest =>
    rw [itemReaders, itemReaders, read_settled h item, itemReaders_settled h rest]

/-- So have members. -/
theorem memberReaders_settled (h : C.Agrees settled) (members : List (String × Json)) :
    memberReaders { C with settled } members = memberReaders C members := by
  cases members with
  | nil => rfl
  | cons member rest =>
    obtain ⟨key, value⟩ := member
    rw [memberReaders, memberReaders, read_settled h value, memberReaders_settled h rest]

end

/-- A payload is decoded alike. -/
theorem decode_settled (h : C.Agrees settled) : decode { C with settled } = decode C := by
  have hresolve : ({ C with settled } : Classes).resolve = C.resolve := by
    funext hint notes
    exact C.resolve_settled settled hint notes
  unfold decode readValue
  rw [funext (read_settled h), hresolve]

/-- The members of an object are those of the same variant and of the same shape. -/
theorem recordMembers_settled (h : C.Agrees settled) :
    recordMembers { C with settled } = recordMembers C := by
  have hamong (className : String) (bases : List String) :
      ({ C with settled } : Classes).parentAmong className bases =
        C.parentAmong className bases := by
    induction bases with
    | nil => rfl
    | cons base rest ih =>
      rw [Classes.parentAmong, Classes.parentAmong, ih,
        show ({ C with settled } : Classes).hierarchy = C.hierarchy from h]
      rfl
  have hparent : ({ C with settled } : Classes).parent = C.parent := by
    funext className
    exact hamong className _
  unfold recordMembers
  rw [hparent, funext (C.shape_settled settled)]

mutual

/-- A value has the same JSON form. -/
theorem toJson_settled (h : C.Agrees settled) (v : Value) :
    toJson { C with settled } v = toJson C v := by
  cases v with
  | list items | tuple items | set _ items => rw [toJson, toJson, itemsToJson_settled h items]
  | dict entries => rw [toJson, toJson, entriesToJson_settled h entries]
  | member _ _ _ value =>
    rw [toJson, toJson]
    exact toJson_settled h value
  | record className attributes =>
    rw [toJson, toJson, recordMembers_settled h, attributesToJson_settled h attributes]
  | _ => rfl

/-- So have items. -/
theorem itemsToJson_settled (h : C.Agrees settled) (items : List Value) :
    itemsToJson { C with settled } items = itemsToJson C items := by
  cases items with
  | nil => rfl
  | cons v rest => rw [itemsToJson, itemsToJson, toJson_settled h v, itemsToJson_settled h rest]

/-- So have entries. -/
theorem entriesToJson_settled (h : C.Agrees settled) (entries : List (Value × Value))
    (members : List (String × Json)) :
    entriesToJson { C with settled } entries members = entriesToJson C entries members := by
  cases entries with
  | nil => rfl
  | cons entry rest =>
    obtain ⟨k, v⟩ := entry
    rw [entriesToJson, entriesToJson, toJson_settled h v]
    refine congrArg _ (funext fun key => congrArg _ (funext fun j => ?_))
    exact entriesToJson_settled h rest _

/-- So have attributes. -/
theorem attributesToJson_settled (h : C.Agrees settled) (attributes : List (String × Value)) :
    attributesToJson { C with settled } attributes = attributesToJson C attributes := by
  cases attributes with
  | nil => rfl
  | cons entry rest =>
    obtain ⟨name, v⟩ := entry
    rw [attributesToJson, attributesToJson, toJson_settled h v, attributesToJson_settled h rest]

end

end Body

/-- A route serves a request alike, whichever hierarchies are settled before. -/
theorem Route.serve_settle (C : Classes) (bases : List String) (r : Route) :
    r.serve (C.settle bases) = r.serve C := by
  have htable : C.settle bases = { C with settled := (C.settle bases).settled } := by
    rw [← C.entries_settle bases]
  have hagrees : C.Agrees (C.settle bases).settled := by
    unfold Classes.Agrees
    rw [← htable]
    exact funext (C.hierarchy_settle bases)
  have hencode : Body.encode { C with settled := (C.settle bases).settled } = Body.encode C := by
    unfold Body.encode
    rw [funext (Body.toJson_settled hagrees)]
  rw [htable]
  unfold serve call respond
  rw [Binder.bind_settled, Body.decode_settled hagrees, hencode]

end HttpContract
