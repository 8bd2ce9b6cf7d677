import HttpContract.Construction
import HttpContract.Proofs.Outcome
import HttpContract.Proofs.Tables

/-!
# Dictionaries within values

A model makes the records inside a value from dictionaries, and the bound on how deep these are
nested is there for the definition only. Checking a value asks for records from dictionaries of the
value itself, so that every bound above its depth gives the same answer.
-/

namespace HttpContract

namespace Value

/-- Items are nested no deeper than a bound when each of them is. -/
theorem dictDepthOfItems_le_iff {items : List Value} {bound : Nat} :
    dictDepthOfItems items ≤ bound ↔ ∀ v ∈ items, v.dictDepth ≤ bound := by
  induction items with
  | nil => simp [dictDepthOfItems]
  | cons v rest ih => rw [dictDepthOfItems, Nat.max_le, List.forall_mem_cons, ih]

/-- Entries are nested no deeper than a bound when each of their keys and values is. -/
theorem dictDepthOfEntries_le_iff {entries : List (Value × Value)} {bound : Nat} :
    dictDepthOfEntries entries ≤ bound ↔
      ∀ e ∈ entries, e.1.dictDepth ≤ bound ∧ e.2.dictDepth ≤ bound := by
  induction entries with
  | nil => simp [dictDepthOfEntries]
  | cons entry rest ih =>
    rw [dictDepthOfEntries, Nat.max_le, Nat.max_le, List.forall_mem_cons, ih]

/-- The entries of a dictionary are nested less deep than the dictionary. -/
theorem dictDepthOfEntries_lt (entries : List (Value × Value)) :
    dictDepthOfEntries entries < (Value.dict entries).dictDepth := by
  rw [dictDepth]
  exact Nat.lt_succ_self _

end Value

namespace ModelCheck

/-- The items that a value is taken for are nested no deeper than the value. -/
theorem dictDepth_of_itemsFor {strict : Bool} {type : Collection} {v : Value} {items : List Value}
    (h : itemsFor strict type v = .ok items) : Value.dictDepthOfItems items = v.dictDepth := by
  unfold itemsFor at h
  dsimp only at h
  split at h <;> cases h <;> rw [Value.dictDepth]

/-- Values are checked alike by checks that agree on each of them. -/
theorem checkEachValue_congr {check check' : Value → Except String Value} {items : List Value}
    (h : ∀ v ∈ items, check v = check' v) :
      checkEachValue check items = checkEachValue check' items := by
  induction items with
  | nil => rfl
  | cons v rest ih =>
    rw [checkEachValue, checkEachValue, h v List.mem_cons_self,
      ih fun w hw => h w (List.mem_cons_of_mem _ hw)]

/-- Entries are checked alike by checks that agree on each of their keys and values. -/
theorem checkEachEntry_congr {checkKey checkKey' check check' : Value → Except String Value}
    {entries : List (Value × Value)} (hkeys : ∀ e ∈ entries, checkKey e.1 = checkKey' e.1)
    (hvalues : ∀ e ∈ entries, check e.2 = check' e.2) :
    checkEachEntry checkKey check entries = checkEachEntry checkKey' check' entries := by
  induction entries with
  | nil => rfl
  | cons entry rest ih =>
    obtain ⟨k, v⟩ := entry
    have hrest := ih (fun e he => hkeys e (List.mem_cons_of_mem _ he)) fun e he =>
      hvalues e (List.mem_cons_of_mem _ he)
    rw [checkEachEntry, checkEachEntry, hrest, hkeys (k, v) List.mem_cons_self,
      hvalues (k, v) List.mem_cons_self]

/-- Whether two ways to make records from dictionaries agree on all dictionaries of less than a
given depth. -/
def AgreeBelow (depth : Nat) (build build' : String → List (Value × Value) → Except String Value) :
    Prop :=
  ∀ className entries, Value.dictDepthOfEntries entries < depth →
    build className entries = build' className entries

variable {C : Classes} {build build' : String → List (Value × Value) → Except String Value}

/-- Agreement goes down. -/
theorem AgreeBelow.mono {depth less : Nat} (h : AgreeBelow depth build build')
    (hle : less ≤ depth) :
    AgreeBelow less build build' :=
  fun className entries hdepth => h className entries (Nat.lt_of_lt_of_le hdepth hle)

mutual

/-- A value is checked alike where records are made alike from the dictionaries inside it. -/
theorem value_congr (rules : List FieldRule) (hint : Hint) {v : Value}
    (h : AgreeBelow v.dictDepth build build') :
    value C build rules hint v = value C build' rules hint v := by
  cases hint with
  | any | forward | builtin | none | noneType | bareCollection | bareMapping | fixedTuple =>
    simp only [value]
  | annotated base notes =>
    rw [value, value]
    exact value_congr _ base h
  | union bars members =>
    cases v <;> first | rfl | exact firstMember_congr rules members h
  | collection type item =>
    have hitem {w : Value} (hw : AgreeBelow w.dictDepth build build') :
        value C build [] item w = value C build' [] item w := value_congr [] item hw
    rw [value, value]
    cases hitems : itemsFor (asksStrict rules) type v with
    | error e => rfl
    | ok items =>
      rw [← dictDepth_of_itemsFor hitems] at h
      have hdepth := Value.dictDepthOfItems_le_iff.mp (Nat.le_refl (Value.dictDepthOfItems items))
      have heach := checkEachValue_congr fun w hw => hitem (h.mono (hdepth w hw))
      simp only [bind, Except.bind, heach]
  | mapping type key item =>
    have hkey {w : Value} (hw : AgreeBelow w.dictDepth build build') :
        value C build [] key w = value C build' [] key w := value_congr [] key hw
    have hitem {w : Value} (hw : AgreeBelow w.dictDepth build build') :
        value C build [] item w = value C build' [] item w := value_congr [] item hw
    cases v with
    | dict entries =>
      have hdepth :=
        Value.dictDepthOfEntries_le_iff.mp (Nat.le_of_lt (Value.dictDepthOfEntries_lt entries))
      have heach := checkEachEntry_congr (fun e he => hkey (h.mono (hdepth e he).1)) fun e he =>
        hitem (h.mono (hdepth e he).2)
      simp only [value, heach]
    | _ => rfl
  | named name =>
    cases v with
    | dict entries =>
      have hbuild := h name entries (Value.dictDepthOfEntries_lt entries)
      simp only [value, hbuild]
    | _ => simp only [value]

/-- So is a value against the first member of a union. -/
theorem firstMember_congr (rules : List FieldRule) (members : List Hint) {v : Value}
    (h : AgreeBelow v.dictDepth build build') :
    firstMember C build rules members v = firstMember C build' rules members v := by
  cases members with
  | nil => rfl
  | cons member rest =>
    cases member with
    | noneType => exact firstMember_congr rules rest h
    | _ => exact value_congr rules _ h

end

end ModelCheck

namespace Classes

variable {C : Classes} {build build' : String → List (Value × Value) → Except String Value}

open ModelCheck (AgreeBelow)

/-- The value of a model's field depends on the value given to it alone, and on how records are made
from dictionaries in that. -/
theorem modelAttribute_congr {checks : List FloorCheck} {values values' : List (String × Value)}
    {spec : FieldSpec}
    (hget : Table.get? (modelInitName spec) values = Table.get? (modelInitName spec) values')
    (hbuild : ∀ given, Table.get? (modelInitName spec) values = some given →
      AgreeBelow given.dictDepth build build') :
    C.modelAttribute build checks values spec = C.modelAttribute build' checks values' spec := by
  unfold modelAttribute
  dsimp only
  rw [← hget]
  cases hgiven : Table.get? (modelInitName spec) values with
  | none => rfl
  | some given =>
    dsimp only
    rw [ModelCheck.value_congr _ _ (hbuild given hgiven)]

/-- The value under a key is nested no deeper than all values of a table. -/
theorem dictDepth_le_of_get? {values : List (String × Value)} {key : String} {v : Value}
    (h : Table.get? key values = some v) :
    v.dictDepth ≤ Value.dictDepthOfItems (values.map (·.2)) :=
  Value.dictDepthOfItems_le_iff.mp (Nat.le_refl _) v
    (List.mem_map_of_mem (Table.mem_of_get? h))

/-- A model's attributes are the same for two ways to make records that agree on what is inside the
values. -/
theorem modelAttributes_congr {className : String} {values : List (String × Value)}
    (hbuild : AgreeBelow (Value.dictDepthOfItems (values.map (·.2))) build build') :
    C.modelAttributes build className values = C.modelAttributes build' className values := by
  have heach : C.modelAttribute build (C.floorChecks className) values =
      C.modelAttribute build' (C.floorChecks className) values := by
    funext spec
    exact modelAttribute_congr rfl fun given hgiven => hbuild.mono (dictDepth_le_of_get? hgiven)
  rw [modelAttributes, modelAttributes, heach]

/-- Bounds that are not below a depth make the same records from dictionaries of less depth. -/
theorem agreeBelow_buildNested (C : Classes) {depth n m : Nat} (hn : depth ≤ n) (hm : depth ≤ m) :
    AgreeBelow depth (C.buildNested n) (C.buildNested m) := by
  induction depth generalizing n m with
  | zero => exact fun _ _ h => absurd h (Nat.not_lt_zero _)
  | succ depth ih =>
    intro className entries hdepth
    obtain ⟨n, rfl⟩ := Nat.exists_eq_add_of_le' (Nat.le_of_add_left_le hn)
    obtain ⟨m, rfl⟩ := Nat.exists_eq_add_of_le' (Nat.le_of_add_left_le hm)
    have hagree := ih (Nat.le_of_succ_le_succ hn) (Nat.le_of_succ_le_succ hm)
    have hentries := Value.dictDepthOfEntries_le_iff.mp (Nat.le_of_lt_succ hdepth)
    rw [buildNested, buildNested]
    dsimp only
    rw [modelAttributes_congr (hagree.mono ?_)]
    refine Value.dictDepthOfItems_le_iff.mpr fun v hv => ?_
    obtain ⟨p, hp, rfl⟩ := List.mem_map.mp hv
    obtain ⟨e, he, hp⟩ := List.mem_filterMap.mp hp
    obtain ⟨key, _, rfl⟩ := Option.map_eq_some_iff.mp hp
    exact (hentries e he).2

end Classes

end HttpContract
