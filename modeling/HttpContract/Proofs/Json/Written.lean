import HttpContract.Proofs.Body.Crashing
import HttpContract.Proofs.Body.Finite
import HttpContract.Proofs.Json.Tokens

/-!
# JSON values that are written

The text that a JSON value is written as denotes its tree and no other one, when every number in it
is finite, and denotes nothing otherwise.
-/

namespace HttpContract

namespace Json

mutual

/-- The tree of a JSON value: each number as it is written. -/
def tree : Json → JsonTree
  | .null => .null
  | .bool b => .bool b
  | .number n => .number (writeNumber JsonStyle.body n)
  | .text s => .text s
  | .array items => .array (treeItems items)
  | .object members => .object (treeMembers members)

/-- The trees of items. -/
def treeItems : List Json → List JsonTree
  | [] => []
  | item :: items => item.tree :: treeItems items

/-- The trees of members, by name. -/
def treeMembers : List (String × Json) → List (String × JsonTree)
  | [] => []
  | (key, value) :: members => (key, value.tree) :: treeMembers members

end

/-- The tree of an array holds those of its items. -/
theorem tree_array (items : List Json) : (Json.array items).tree = .array (items.map tree) := by
  have hitems : treeItems items = items.map tree := by
    induction items with
    | nil => rfl
    | cons item rest ih => rw [treeItems, ih, List.map_cons]
  rw [tree, hitems]

/-- The tree of an object holds those of its members. -/
theorem tree_object (members : List (String × Json)) :
    (Json.object members).tree = .object (members.map fun m => (m.1, m.2.tree)) := by
  have hmembers : treeMembers members = members.map fun m => (m.1, m.2.tree) := by
    induction members with
    | nil => rfl
    | cons m rest ih =>
      obtain ⟨key, value⟩ := m
      rw [treeMembers, ih, List.map_cons]
  rw [tree, hmembers]

/-- The characters of a JSON value in a body, at a level. -/
def bodyCharacters (level : Nat) (j : Json) : List Char := (writeAt JsonStyle.body level j).toList

/-- The characters of a member in a body, at a level. -/
def memberCharacters (level : Nat) (m : String × Json) : List Char :=
  (writeText true m.1).toList ++ ':' :: ' ' :: m.2.bodyCharacters level

/-- The null value is written by its name. -/
theorem bodyCharacters_null (level : Nat) :
    Json.null.bodyCharacters level = ['n', 'u', 'l', 'l'] := by
  rw [bodyCharacters, writeAt]
  rfl

/-- The true value is written by its name. -/
theorem bodyCharacters_true (level : Nat) :
    (Json.bool true).bodyCharacters level = ['t', 'r', 'u', 'e'] := by
  rw [bodyCharacters, writeAt]
  rfl

/-- The false value is written by its name. -/
theorem bodyCharacters_false (level : Nat) :
    (Json.bool false).bodyCharacters level = ['f', 'a', 'l', 's', 'e'] := by
  rw [bodyCharacters, writeAt]
  rfl

/-- Numbers have a writer of their own. -/
theorem bodyCharacters_number (level : Nat) (n : Number) :
    (Json.number n).bodyCharacters level = (writeNumber JsonStyle.body n).toList := by
  rw [bodyCharacters, writeAt]

/-- Texts are written between quotes. -/
theorem bodyCharacters_text (level : Nat) (s : String) :
    (Json.text s).bodyCharacters level =
      '"' :: (s.toList.flatMap (escapeCharacter true) ++ ['"']) := by
  rw [bodyCharacters, writeAt, JsonStyle.body, JsonGrammar.toList_writeText]

/-- The items of an array stand in a row between brackets. -/
theorem bodyCharacters_array (level : Nat) (items : List Json) :
    (Json.array items).bodyCharacters level =
      '[' :: (JsonGrammar.row (bodyCharacters (level + 1)) items ++ [']']) := by
  cases items with
  | nil =>
    rw [bodyCharacters, writeAt]
    rfl
  | cons item items =>
    have hitems : (writeItems JsonStyle.body (level + 1) items).toList =
        items.flatMap fun x => ',' :: ' ' :: x.bodyCharacters (level + 1) := by
      induction items with
      | nil => rfl
      | cons x rest ih =>
        simp only [writeItems, String.toList_append, ih, List.flatMap_cons]
        simp [separator, JsonStyle.body, bodyCharacters]
    rw [bodyCharacters, writeAt, JsonGrammar.row]
    simp only [String.toList_append, hitems]
    simp [lineStart, JsonStyle.body, bodyCharacters]

/-- The members of an object stand in a row between braces. -/
theorem bodyCharacters_object (level : Nat) (members : List (String × Json)) :
    (Json.object members).bodyCharacters level =
      '\x7b' :: (JsonGrammar.row (memberCharacters (level + 1)) members ++ ['\x7d']) := by
  cases members with
  | nil =>
    rw [bodyCharacters, writeAt]
    rfl
  | cons m members =>
    have hmembers : (writeMembers JsonStyle.body (level + 1) members).toList =
        members.flatMap fun x => ',' :: ' ' :: memberCharacters (level + 1) x := by
      induction members with
      | nil => rfl
      | cons x rest ih =>
        obtain ⟨key, value⟩ := x
        simp only [writeMembers, String.toList_append, ih, List.flatMap_cons]
        simp [separator, JsonStyle.body, memberCharacters, bodyCharacters]
    obtain ⟨key, value⟩ := m
    rw [bodyCharacters, writeAt, JsonGrammar.row]
    simp only [String.toList_append, hmembers]
    simp [lineStart, JsonStyle.body, memberCharacters, bodyCharacters]

end Json

namespace JsonGrammar

variable {behind rest : List Char} {t : JsonTree}

/-- A number is no blank. -/
theorem IsNumber.solid {token : List Char} (h : IsNumber token) (behind : List Char) :
    Solid (token ++ behind) := (Denotes.number behind h).solid

/-- Finite numbers are written as numbers of the grammar. -/
theorem isNumber_writeNumber {n : Number} (h : (Json.number n).IsFinite) :
    IsNumber (Json.writeNumber JsonStyle.body n).toList := by
  cases n with
  | int n => exact isNumber_toString n
  | float x =>
    cases x with
    | finite negative mantissa exponent => exact isNumber_render negative mantissa exponent
    | infinite negative | nan => cases h

/-- Numbers that are not finite are written as words that denote nothing. -/
theorem not_denotes_writeNumber {n : Number} (h : ¬(Json.number n).IsFinite) :
    ¬Denotes ((Json.writeNumber JsonStyle.body n).toList ++ behind) t rest := by
  cases n with
  | int n => exact absurd rfl h
  | float x =>
    cases x with
    | finite negative mantissa exponent => exact absurd rfl h
    | infinite negative =>
      cases negative with
      | true => exact not_denotes_minus (c := 'I') rfl
      | false => exact not_denotes (c := 'I') (by decide) rfl
    | nan => exact not_denotes (c := 'N') (by decide) rfl

/-- Every number is written solid. -/
theorem solid_writeNumber (n : Number) (behind : List Char) :
    Solid ((Json.writeNumber JsonStyle.body n).toList ++ behind) := by
  by_cases hfinite : (Json.number n).IsFinite
  · exact (isNumber_writeNumber hfinite).solid behind
  · cases n with
    | int n => exact absurd rfl hfinite
    | float x =>
      cases x with
      | finite negative mantissa exponent => exact absurd rfl hfinite
      | infinite negative =>
        cases negative with
        | true => exact solid_cons_iff (c := '-').mpr (by simp [IsGap, IsBlank])
        | false => exact solid_cons_iff (c := 'I').mpr (by simp [IsGap, IsBlank])
      | nan => exact solid_cons_iff (c := 'N').mpr (by simp [IsGap, IsBlank])

/-- Every value is written solid. -/
theorem solid_bodyCharacters (level : Nat) (j : Json) (behind : List Char) :
    Solid (j.bodyCharacters level ++ behind) := by
  cases j with
  | null =>
    rw [Json.bodyCharacters_null]
    exact solid_cons_iff.mpr (by simp [IsGap, IsBlank])
  | bool b =>
    cases b with
    | true =>
      rw [Json.bodyCharacters_true]
      exact solid_cons_iff.mpr (by simp [IsGap, IsBlank])
    | false =>
      rw [Json.bodyCharacters_false]
      exact solid_cons_iff.mpr (by simp [IsGap, IsBlank])
  | number n =>
    rw [Json.bodyCharacters_number]
    exact solid_writeNumber n behind
  | text s =>
    rw [Json.bodyCharacters_text]
    exact solid_cons_iff.mpr (by simp [IsGap, IsBlank])
  | array items =>
    rw [Json.bodyCharacters_array]
    exact solid_cons_iff.mpr (by simp [IsGap, IsBlank])
  | object members =>
    rw [Json.bodyCharacters_object]
    exact solid_cons_iff.mpr (by simp [IsGap, IsBlank])

/-- Whether a value is written so that it is told from what stands behind it when all its numbers
are finite, and so that it denotes nothing when one of them is not. -/
def Told (j : Json) : Prop :=
  ∀ (level : Nat) (behind : List Char) (t : JsonTree) (rest : List Char), Apart behind →
    Apart rest → (Denotes (j.bodyCharacters level ++ behind) t rest ↔
      j.IsFinite ∧ t = j.tree ∧ rest = behind)

/-- Numbers are told. -/
theorem told_number (n : Number) : Told (.number n) := by
  intro level behind t rest hbehind hrest
  rw [Json.bodyCharacters_number]
  by_cases hfinite : (Json.number n).IsFinite
  · rw [denotes_number_iff (isNumber_writeNumber hfinite) hbehind hrest, String.ofList_toList]
    simp [hfinite, Json.tree]
  · simp [hfinite, not_denotes_writeNumber hfinite]

/-- Texts are told. -/
theorem told_text (s : String) : Told (.text s) := by
  intro level behind t rest _ _
  rw [Json.bodyCharacters_text, List.cons_append, List.append_assoc, List.singleton_append,
    denotes_quote_iff]
  constructor
  · rintro ⟨text, h, rfl⟩
    obtain ⟨rfl, rfl⟩ := characters_text_iff.mp h
    exact ⟨rfl, by rw [String.ofList_toList, Json.tree], rfl⟩
  · rintro ⟨_, rfl, rfl⟩
    exact ⟨s.toList, characters_text_iff.mpr ⟨rfl, rfl⟩, by rw [String.ofList_toList, Json.tree]⟩

/-- Arrays are told when their items are. -/
theorem told_array {items : List Json} (h : ∀ item ∈ items, Told item) : Told (.array items) := by
  intro level behind t rest hbehind hrest
  rw [Json.isFinite_array_iff, Json.tree_array, Json.bodyCharacters_array, List.cons_append,
    List.append_assoc, List.singleton_append, denotes_bracket_iff]
  have hrow {trees : List JsonTree} : Enclosed Denotes ']'
      (row (Json.bodyCharacters (level + 1)) items ++ ']' :: behind) trees rest ↔
        (∀ item ∈ items, item.IsFinite) ∧ trees = items.map Json.tree ∧ rest = behind :=
    enclosed_row_iff (Or.inl rfl) (fun _ _ _ h => h.solid)
      (fun item _ => solid_bodyCharacters (level + 1) item)
      fun item hitem => h item hitem (level + 1)
  simp only [hrow]
  constructor
  · rintro ⟨trees, ⟨hfinite, rfl, rfl⟩, rfl⟩
    exact ⟨hfinite, rfl, rfl⟩
  · rintro ⟨hfinite, rfl, rfl⟩
    exact ⟨_, ⟨hfinite, rfl, rfl⟩, rfl⟩

/-- Every member is written solid. -/
theorem solid_memberCharacters (level : Nat) (m : String × Json) (behind : List Char) :
    Solid (Json.memberCharacters level m ++ behind) := by
  rw [Json.memberCharacters, toList_writeText]
  exact solid_cons_iff.mpr (by simp [IsGap, IsBlank])

/-- A member is told when what its name stands for is. -/
theorem named_member_iff {m : String × Json} (h : Told m.2) (level : Nat) (behind : List Char)
    (shown : String × JsonTree) (rest : List Char) (hbehind : Apart behind) (hrest : Apart rest) :
    Named Denotes (Json.memberCharacters level m ++ behind) shown rest ↔
      m.2.IsFinite ∧ shown = (m.1, m.2.tree) ∧ rest = behind := by
  have hcolon : ¬IsBlank ':' := by simp [IsBlank]
  have hvalue : Solid (m.2.bodyCharacters level ++ behind) := solid_bodyCharacters level m.2 behind
  have hcharacters : Json.memberCharacters level m ++ behind =
      '"' :: (m.1.toList.flatMap (Json.escapeCharacter true) ++
        '"' :: ':' :: ' ' :: (m.2.bodyCharacters level ++ behind)) := by
    simp [Json.memberCharacters, toList_writeText]
  rw [hcharacters]
  constructor
  · intro hnamed
    cases hnamed with
    | intro hname hmark hblanks hdenotes =>
      obtain ⟨rfl, rfl⟩ := characters_text_iff.mp hname
      obtain ⟨_, rfl⟩ := List.cons.inj ((blanks_iff_of_not_blank hcolon).mp hmark)
      obtain rfl := (blanks_blank_iff hvalue hdenotes.solid).mp hblanks
      obtain ⟨hfinite, rfl, rfl⟩ := (h level behind _ rest hbehind hrest).mp hdenotes
      exact ⟨hfinite, by rw [String.ofList_toList], rfl⟩
  · rintro ⟨hfinite, rfl, rfl⟩
    have hdenotes := (h level rest m.2.tree rest hbehind hrest).mpr ⟨hfinite, rfl, rfl⟩
    have hname : Characters (m.1.toList.flatMap (Json.escapeCharacter true) ++
        '"' :: ':' :: ' ' :: (m.2.bodyCharacters level ++ rest)) m.1.toList
        (':' :: ' ' :: (m.2.bodyCharacters level ++ rest)) := characters_text_iff.mpr ⟨rfl, rfl⟩
    have hnamed := Named.intro hname ((blanks_iff_of_not_blank hcolon).mpr rfl)
      ((blanks_blank_iff hvalue hvalue).mpr rfl) hdenotes
    rwa [String.ofList_toList] at hnamed

/-- Objects are told when what the names of their members stand for is. -/
theorem told_object {members : List (String × Json)} (h : ∀ m ∈ members, Told m.2) :
    Told (.object members) := by
  intro level behind t rest hbehind hrest
  rw [Json.isFinite_object_iff, Json.tree_object, Json.bodyCharacters_object, List.cons_append,
    List.append_assoc, List.singleton_append, denotes_brace_iff]
  have hrow {shown : List (String × JsonTree)} : Enclosed (Named Denotes) '\x7d'
      (row (Json.memberCharacters (level + 1)) members ++ '\x7d' :: behind) shown rest ↔
        (∀ m ∈ members, m.2.IsFinite) ∧ shown = members.map (fun m => (m.1, m.2.tree)) ∧
          rest = behind :=
    enclosed_row_iff (Or.inr rfl) (fun _ _ _ h => h.solid)
      (fun m _ => solid_memberCharacters (level + 1) m)
      fun m hm => named_member_iff (h m hm) (level + 1)
  simp only [hrow]
  constructor
  · rintro ⟨shown, ⟨hfinite, rfl, rfl⟩, rfl⟩
    exact ⟨hfinite, rfl, rfl⟩
  · rintro ⟨hfinite, rfl, rfl⟩
    exact ⟨_, ⟨hfinite, rfl, rfl⟩, rfl⟩

/-- Every value is told from what stands behind it. -/
theorem told (j : Json) : Told j := by
  induction j using Json.induction with
  | array items ih => exact told_array ih
  | object members ih => exact told_object ih
  | other j harray hobject =>
    cases j with
    | null =>
      intro level behind t rest _ _
      rw [Json.bodyCharacters_null]
      refine denotes_null_iff.trans ?_
      simp [Json.tree, Json.IsFinite, Json.finiteOnly]
    | bool b =>
      intro level behind t rest _ _
      cases b with
      | true =>
        rw [Json.bodyCharacters_true]
        refine denotes_true_iff.trans ?_
        simp [Json.tree, Json.IsFinite, Json.finiteOnly]
      | false =>
        rw [Json.bodyCharacters_false]
        refine denotes_false_iff.trans ?_
        simp [Json.tree, Json.IsFinite, Json.finiteOnly]
    | number n => exact told_number n
    | text s => exact told_text s
    | array items => exact absurd rfl (harray items)
    | object members => exact absurd rfl (hobject members)

/-- The text of a JSON value as a body denotes its tree alone, when all its numbers are finite, and
nothing otherwise. -/
theorem isText_toBodyText_iff {j : Json} {t : JsonTree} :
    IsText j.toBodyText.toList t ↔ j.IsFinite ∧ t = j.tree := by
  have hcharacters : j.toBodyText.toList = j.bodyCharacters 0 ++ [] := (List.append_nil _).symm
  have hend : Apart [] := by simp [Apart]
  have hsolid : Solid (j.bodyCharacters 0 ++ []) := solid_bodyCharacters 0 j []
  rw [hcharacters]
  constructor
  · rintro ⟨front, behind, hfront, hdenotes, hbehind⟩
    obtain rfl := hsolid.blanks_iff.mp hfront
    obtain ⟨hfinite, rfl, _⟩ := (told j 0 [] t behind hend (.of_blanks_nil hbehind)).mp hdenotes
    exact ⟨hfinite, rfl⟩
  · rintro ⟨hfinite, rfl⟩
    refine ⟨_, [], hsolid.blanks_iff.mpr rfl, ?_, [], by simp, rfl⟩
    exact (told j 0 [] j.tree [] hend hend).mpr ⟨hfinite, rfl, rfl⟩

end JsonGrammar

end HttpContract
