import HttpContract.Proofs.Route.Compiled

/-!
# Paths that have the form of a template

A path is an instance of a template when it is the text of the template with something in the place
of every variable. The matcher accepts the instances, and what it finds for the variables is what
stands in their place. It accepts one kind of path besides: an instance with a line feed behind it.
-/

namespace HttpContract

namespace Template

/-- What can stand in braces as the name of a variable. -/
def IsName (name : List Char) : Prop :=
  name ≠ [] ∧ '\x7b' ∉ name ∧ '\x7d' ∉ name ∧ '/' ∉ name

/-- What a variable can stand for. -/
def IsValue (value : List Char) : Prop := value ≠ [] ∧ '/' ∉ value

/-- Whether a text begins with a variable. -/
def Opens (text : List Char) : Prop :=
  ∃ name rest, IsName name ∧ text = '\x7b' :: (name ++ '\x7d' :: rest)

/-- Whether a path is a text with its variables, read from the left, replaced as the bindings
tell. -/
inductive Replaces : List Char → List (String × String) → List Char → Prop
  | nil : Replaces [] [] []
  | capture {name value : String} {text path : List Char} {bindings : List (String × String)}
      (hname : IsName name.toList) (hvalue : IsValue value.toList)
      (h : Replaces text bindings path) :
      Replaces ('\x7b' :: (name.toList ++ '\x7d' :: text)) ((name, value) :: bindings)
        (value.toList ++ path)
  | letter {c : Char} {text path : List Char} {bindings : List (String × String)}
      (hletter : ¬Opens (c :: text)) (h : Replaces text bindings path) :
      Replaces (c :: text) bindings (c :: path)

/-- Whether a path is a template with every variable replaced by something. -/
def IsInstance (template path : String) : Prop :=
  ∃ bindings, Replaces template.toList bindings path.toList

section Reading

variable {c : Char} {name text : List Char}

/-- The characters of a name. -/
theorem IsName.isNameCharacter (h : IsName name) : ∀ c ∈ name, isNameCharacter c = true := by
  obtain ⟨_, hopen, hclose, hslash⟩ := h
  intro c hc
  have hne (d : Char) (hd : d ∉ name) : c ≠ d := fun he => hd (he ▸ hc)
  simp only [Template.isNameCharacter, Bool.and_eq_true, bne_iff_ne]
  exact ⟨⟨hne _ hopen, hne _ hclose⟩, hne _ hslash⟩

/-- A name with a closing brace behind it is found. -/
theorem variableBehind?_of_isName (h : IsName name) (rest : List Char) :
    variableBehind? (name ++ '\x7d' :: rest) = some (name, name.length + 1) := by
  have htake : (name ++ '\x7d' :: rest).takeWhile Template.isNameCharacter = name := by
    rw [List.takeWhile_append_of_pos h.isNameCharacter]
    exact List.append_nil name
  have hempty : name.isEmpty = false := List.isEmpty_eq_false_iff.mpr h.1
  unfold variableBehind?
  simp [htake, hempty]

/-- What is found is a name with a closing brace behind it. -/
theorem isName_of_variableBehind? {width : Nat} (h : variableBehind? text = some (name, width)) :
    IsName name ∧ width = name.length + 1 ∧ ∃ rest, text = name ++ '\x7d' :: rest := by
  unfold variableBehind? at h
  dsimp only at h
  split at h
  · cases h
  · rename_i hempty
    split at h
    · rename_i hclose
      cases h
      have hall := List.all_eq_true.mp
        (List.all_takeWhile (p := Template.isNameCharacter) (l := text))
      have hnot (d : Char) (hd : Template.isNameCharacter d = false) :
          d ∉ text.takeWhile Template.isNameCharacter := by
        intro hmem
        rw [hall d hmem] at hd
        cases hd
      have hne : text.takeWhile Template.isNameCharacter ≠ [] :=
        fun he => hempty (List.isEmpty_iff.mpr he)
      obtain ⟨behind, hbehind⟩ := List.takeWhile_prefix Template.isNameCharacter (l := text)
      refine ⟨⟨hne, hnot _ rfl, hnot _ rfl, hnot _ rfl⟩, rfl, ?_⟩
      generalize text.takeWhile Template.isNameCharacter = name at hbehind hclose ⊢
      subst hbehind
      rw [List.getElem?_append_right (Nat.le_refl _), Nat.sub_self] at hclose
      obtain ⟨rest, rfl⟩ := List.head?_eq_some_iff.mp (List.head?_eq_getElem?.trans hclose)
      exact ⟨rest, rfl⟩
    · cases h

/-- Characters that belong to a part read before are passed over. -/
theorem parseFrom_append (skipped rest : List Char) :
    parseFrom skipped.length (skipped ++ rest) = parseFrom 0 rest := by
  induction skipped with
  | nil => rfl
  | cons c skipped ih => exact ih

/-- A variable is a part. -/
theorem parseFrom_variable (h : IsName name) (text : List Char) :
    parseFrom 0 ('\x7b' :: (name ++ '\x7d' :: text)) = .capture name :: parseFrom 0 text := by
  have hskip := parseFrom_append (name ++ ['\x7d']) text
  rw [List.length_append, List.append_assoc] at hskip
  rw [parseFrom, if_pos rfl, variableBehind?_of_isName h]
  exact congrArg _ hskip

/-- A character with which no variable begins is a part. -/
theorem parseFrom_letter (h : ¬Opens (c :: text)) :
    parseFrom 0 (c :: text) = .letter c :: parseFrom 0 text := by
  rw [parseFrom]
  split
  · rename_i hc
    cases hvariable : variableBehind? text with
    | none => rfl
    | some found =>
      obtain ⟨hname, _, rest, hrest⟩ := isName_of_variableBehind? hvariable
      exact absurd ⟨found.1, rest, hname, by rw [hc, hrest]⟩ h
  · rfl

/-- A text is read from the left: a variable or a character that begins none, and then the rest. -/
theorem text_induction {motive : List Char → Prop} (nil : motive [])
    (capture : ∀ name text, IsName name → motive text →
      motive ('\x7b' :: (name ++ '\x7d' :: text)))
    (letter : ∀ c text, ¬Opens (c :: text) → motive text → motive (c :: text))
    (text : List Char) : motive text := by
  induction hlength : text.length using Nat.strongRecOn generalizing text with
  | _ n ih =>
    cases text with
    | nil => exact nil
    | cons c rest =>
      by_cases hopens : Opens (c :: rest)
      · obtain ⟨name, behind, hname, heq⟩ := hopens
        rw [heq] at hlength ⊢
        refine capture name behind hname (ih behind.length ?_ behind rfl)
        simp only [List.length_cons, List.length_append] at hlength
        omega
      · refine letter c rest hopens (ih rest.length ?_ rest rfl)
        rw [List.length_cons] at hlength
        omega

end Reading

/-- Whether a path is made of the parts of a template, with values in the places of variables. -/
inductive Spells : Template → List (List Char) → List Char → Prop
  | nil : Spells [] [] []
  | letter {c : Char} {parts : Template} {values : List (List Char)} {path : List Char}
      (h : Spells parts values path) : Spells (.letter c :: parts) values (c :: path)
  | capture {name value : List Char} {parts : Template} {values : List (List Char)}
      {path : List Char} (hvalue : IsValue value) (h : Spells parts values path) :
      Spells (.capture name :: parts) (value :: values) (value ++ path)

section Spelling

variable {parts : Template} {values : List (List Char)} {path ending : List Char}

/-- What may be left of a path at the end of a template. -/
def IsEnding (rest : List Char) : Prop := rest = [] ∨ rest = ['\n']

/-- The end of a template accepts the two endings. -/
theorem valuesIn_nil_eq_some : valuesIn [] path = some values ↔ IsEnding path ∧ values = [] := by
  rw [valuesIn, IsEnding]
  by_cases h : path = [] ∨ path = ['\n']
  · have htest : (path.isEmpty || path == ['\n']) = true := by simpa using h
    rw [if_pos htest, and_iff_right h]
    exact ⟨fun heq => (Option.some.inj heq).symm, fun heq => congrArg some heq.symm⟩
  · have htest : ¬(path.isEmpty || path == ['\n']) = true := by simpa using h
    rw [if_neg htest]
    exact iff_of_false (Option.some_ne_none _).symm fun hboth => h hboth.1

/-- The longest text that a variable can stand for reaches beyond a value at the front. -/
theorem IsValue.length_le {value : List Char} (h : IsValue value) (rest : List Char) :
    value.length ≤ ((value ++ rest).takeWhile (· != '/')).length := by
  have hall : ∀ c ∈ value, (c != '/') = true := fun c hc => bne_iff_ne.mpr fun he => h.2 (he ▸ hc)
  rw [List.takeWhile_append_of_pos hall, List.length_append]
  exact Nat.le_add_right _ _

/-- Up to a slash, what stands at the front of a path is a value. -/
theorem isValue_take {n : Nat} (h : n < (path.takeWhile (· != '/')).length) :
    IsValue (path.take (n + 1)) := by
  obtain ⟨behind, hbehind⟩ := List.takeWhile_prefix (· != '/') (l := path)
  have htake : path.take (n + 1) = (path.takeWhile (· != '/')).take (n + 1) := by
    calc path.take (n + 1)
      _ = (path.takeWhile (· != '/') ++ behind).take (n + 1) := by rw [hbehind]
      _ = _ := List.take_append_of_le_length h
  rw [htake]
  constructor
  · intro he
    have hlength := congrArg List.length he
    rw [List.length_take, List.length_nil] at hlength
    omega
  · intro hslash
    have hall := List.all_eq_true.mp (List.all_takeWhile (p := (· != '/')) (l := path))
    exact absurd rfl (bne_iff_ne.mp (hall _ (List.mem_of_mem_take hslash)))

/-- Of the numbers below a bound the last one for which something is found counts. -/
theorem findSome?_reverse_range {α : Type} {f : Nat → Option α} {k : Nat} {a : α} :
    (List.range k).reverse.findSome? f = some a ↔
      ∃ n < k, f n = some a ∧ ∀ m, n < m → m < k → f m = none := by
  induction k with
  | zero => simp
  | succ k ih =>
    rw [List.range_succ, List.reverse_append, List.reverse_singleton, List.singleton_append,
      List.findSome?_cons]
    cases hk : f k with
    | some b =>
      constructor
      · intro h
        exact ⟨k, Nat.lt_succ_self k, hk.trans h, fun m _ _ => by omega⟩
      · rintro ⟨n, hn, hfound, hlast⟩
        rcases Nat.lt_succ_iff_lt_or_eq.mp hn with hn | rfl
        · rw [hlast k hn (Nat.lt_succ_self k)] at hk
          cases hk
        · exact hk.symm.trans hfound
    | none =>
      rw [ih]
      constructor
      · rintro ⟨n, hn, hfound, hlast⟩
        refine ⟨n, by omega, hfound, fun m hnm hm => ?_⟩
        rcases Nat.lt_succ_iff_lt_or_eq.mp hm with hm | rfl
        · exact hlast m hnm hm
        · exact hk
      · rintro ⟨n, hn, hfound, hlast⟩
        have hne : n ≠ k := by
          rintro rfl
          rw [hk] at hfound
          cases hfound
        exact ⟨n, by omega, hfound, fun m hnm hm => hlast m hnm (by omega)⟩

/-- A variable takes the longest value that the rest of the template allows. -/
theorem valuesIn_capture_eq_some {name : List Char} :
    valuesIn (.capture name :: parts) path = some values ↔
      ∃ value rest others, path = value ++ rest ∧ IsValue value ∧ values = value :: others ∧
        parts.valuesIn rest = some others ∧
        ∀ longer behind, path = longer ++ behind → IsValue longer →
          value.length < longer.length → parts.valuesIn behind = none := by
  rw [valuesIn, findSome?_reverse_range]
  constructor
  · rintro ⟨n, hn, hfound, hlast⟩
    obtain ⟨others, hothers, rfl⟩ := Option.map_eq_some_iff.mp hfound
    refine ⟨path.take (n + 1), path.drop (n + 1), others, (List.take_append_drop _ _).symm,
      isValue_take hn, rfl, hothers, ?_⟩
    rintro longer behind rfl hvalue hlength
    have hreach := hvalue.length_le behind
    have hle := (List.takeWhile_prefix (· != '/') (l := longer ++ behind)).length_le
    rw [List.length_take, Nat.min_eq_left (by omega)] at hlength
    have hnone := hlast (longer.length - 1) (by omega) (by omega)
    rwa [Nat.sub_add_cancel (by omega), Option.map_eq_none_iff, List.drop_left] at hnone
  · rintro ⟨value, rest, others, rfl, hvalue, rfl, hothers, hlast⟩
    have hreach := hvalue.length_le rest
    have hpositive : 0 < value.length := List.length_pos_iff.mpr hvalue.1
    refine ⟨value.length - 1, by omega, ?_, ?_⟩
    · rw [Nat.sub_add_cancel hpositive, List.drop_left, List.take_left, hothers]
      rfl
    · intro m hm hbound
      have hle := (List.takeWhile_prefix (· != '/') (l := value ++ rest)).length_le
      rw [Option.map_eq_none_iff]
      refine hlast _ _ (List.take_append_drop (m + 1) _).symm (isValue_take hbound) ?_
      rw [List.length_take]
      omega

/-- What the matcher finds spells the path, up to what may be left at the end. -/
theorem spells_of_valuesIn (h : parts.valuesIn path = some values) :
    ∃ front ending, path = front ++ ending ∧ IsEnding ending ∧ Spells parts values front := by
  induction parts generalizing path values with
  | nil =>
    obtain ⟨hending, rfl⟩ := valuesIn_nil_eq_some.mp h
    exact ⟨[], path, rfl, hending, .nil⟩
  | cons part parts ih =>
    cases part with
    | letter c =>
      cases path with
      | nil => cases h
      | cons d rest =>
        rw [valuesIn] at h
        split at h
        · rename_i hcd
          obtain ⟨front, ending, rfl, hending, hspells⟩ := ih h
          exact ⟨c :: front, ending, by rw [hcd]; rfl, hending, .letter hspells⟩
        · cases h
    | capture name =>
      obtain ⟨value, rest, others, rfl, hvalue, rfl, hothers, _⟩ := valuesIn_capture_eq_some.mp h
      obtain ⟨front, ending, rfl, hending, hspells⟩ := ih hothers
      exact ⟨value ++ front, ending, (List.append_assoc ..).symm, hending, .capture hvalue hspells⟩

/-- The matcher accepts what is spelled, and an ending behind it. -/
theorem Spells.isSome_valuesIn (h : Spells parts values path) (hending : IsEnding ending) :
    (parts.valuesIn (path ++ ending)).isSome = true := by
  induction h with
  | nil =>
    rw [List.nil_append, valuesIn_nil_eq_some.mpr ⟨hending, rfl⟩]
    rfl
  | letter h ih =>
    rw [List.cons_append, valuesIn, if_pos rfl]
    exact ih
  | @capture name value parts values path hvalue h ih =>
    have hreach := hvalue.length_le (path ++ ending)
    have hpositive : 0 < value.length := List.length_pos_iff.mpr hvalue.1
    rw [valuesIn, List.append_assoc, List.findSome?_isSome_iff]
    refine ⟨value.length - 1, ?_, ?_⟩
    · rw [List.mem_reverse, List.mem_range]
      omega
    · rw [Nat.sub_add_cancel hpositive, Option.isSome_map, List.drop_left]
      exact ih

/-- Letters spell themselves. -/
theorem spells_letters_iff {letters : List Char} :
    Spells (letters.map .letter) values path ↔ values = [] ∧ path = letters := by
  induction letters generalizing path with
  | nil =>
    constructor
    · rintro ⟨⟩
      exact ⟨rfl, rfl⟩
    · rintro ⟨rfl, rfl⟩
      exact .nil
  | cons c letters ih =>
    constructor
    · rintro ⟨⟩
      rename_i rest h
      obtain ⟨rfl, rfl⟩ := ih.mp h
      exact ⟨rfl, rfl⟩
    · rintro ⟨rfl, rfl⟩
      exact .letter (ih.mpr ⟨rfl, rfl⟩)

/-- What two templates spell one after the other. -/
theorem spells_append_iff {behind : Template} :
    Spells (parts ++ behind) values path ↔
      ∃ firstValues lastValues front back, values = firstValues ++ lastValues ∧
        path = front ++ back ∧ Spells parts firstValues front ∧ Spells behind lastValues back := by
  induction parts generalizing values path with
  | nil =>
    constructor
    · intro h
      exact ⟨[], values, [], path, rfl, rfl, .nil, h⟩
    · rintro ⟨_, _, _, _, rfl, rfl, ⟨⟩, h⟩
      exact h
  | cons part parts ih =>
    constructor
    · intro h
      cases h with
      | letter h =>
        obtain ⟨firstValues, lastValues, front, back, rfl, rfl, hfront, hback⟩ := ih.mp h
        exact ⟨firstValues, lastValues, _ :: front, back, rfl, rfl, .letter hfront, hback⟩
      | @capture _ value _ _ _ hvalue h =>
        obtain ⟨firstValues, lastValues, front, back, rfl, rfl, hfront, hback⟩ := ih.mp h
        exact ⟨value :: firstValues, lastValues, value ++ front, back, rfl,
          (List.append_assoc ..).symm, .capture hvalue hfront, hback⟩
    · rintro ⟨_, lastValues, _, back, rfl, rfl, hfront, hback⟩
      cases hfront with
      | letter hfront => exact .letter (ih.mpr ⟨_, _, _, _, rfl, rfl, hfront, hback⟩)
      | capture hvalue hfront =>
        rw [List.append_assoc]
        exact .capture hvalue (ih.mpr ⟨_, _, _, _, rfl, rfl, hfront, hback⟩)

/-- A template is made of letters, or it has a last variable. -/
theorem letters_or_last_capture (parts : Template) :
    (∃ letters, parts = List.map .letter letters) ∨
      ∃ front name letters, parts = front ++ .capture name :: List.map .letter letters := by
  induction parts with
  | nil => exact Or.inl ⟨[], rfl⟩
  | cons part parts ih =>
    rcases ih with ⟨letters, rfl⟩ | ⟨front, name, letters, rfl⟩
    · cases part with
      | letter c => exact Or.inl ⟨c :: letters, rfl⟩
      | capture name => exact Or.inr ⟨[], name, letters, rfl⟩
    · exact Or.inr ⟨part :: front, name, letters, rfl⟩

/-- A line feed behind letters that end with it can as well stand in front of them. -/
theorem append_lineFeed_of_suffix {letters front : List Char}
    (h : letters <:+ front ++ letters ++ ['\n']) : letters ++ ['\n'] = '\n' :: letters := by
  have hsuffix : letters <:+ letters ++ ['\n'] := by
    refine List.suffix_of_suffix_length_le h ⟨front, (List.append_assoc ..).symm⟩ ?_
    rw [List.length_append]
    exact Nat.le_add_right _ _
  obtain ⟨before, hbefore⟩ := hsuffix
  have hlength := congrArg List.length hbefore
  rw [List.length_append, List.length_append, Nat.add_comm, Nat.add_left_cancel_iff] at hlength
  obtain ⟨c, rfl⟩ := List.length_eq_one_iff.mp hlength
  -- Both sides have as many line feeds, so the character in front is one.
  have hcount := congrArg (List.count '\n') hbefore
  rw [List.count_append, List.count_append, Nat.add_comm, Nat.add_left_cancel_iff,
    List.count_singleton, List.count_singleton_self] at hcount
  have hc : c = '\n' := by
    by_cases hc : c = '\n'
    · exact hc
    · simp [hc] at hcount
  rw [← hbefore, hc]
  rfl

/-- When a template spells a path and, with a line feed behind, an end of it, then it spells this
end with the line feed as well: the last variable takes it. -/
theorem Spells.exists_spells_lineFeed {others : List (List Char)} {front : List Char}
    (h : Spells parts values path)
    (hlonger : Spells parts others (front ++ path ++ ['\n'])) :
    ∃ more, Spells parts more (path ++ ['\n']) := by
  rcases letters_or_last_capture parts with ⟨letters, rfl⟩ | ⟨before, name, letters, rfl⟩
  · obtain ⟨_, rfl⟩ := spells_letters_iff.mp h
    obtain ⟨_, heq⟩ := spells_letters_iff.mp hlonger
    have hlength := congrArg List.length heq
    rw [List.length_append, List.length_append, List.length_singleton] at hlength
    omega
  · obtain ⟨firstValues, _, start, _, rfl, rfl, hstart, hlast⟩ := spells_append_iff.mp h
    obtain ⟨_, _, longerStart, _, _, heq, _, hlongerLast⟩ := spells_append_iff.mp hlonger
    cases hlast with
    | @capture _ value _ _ behind hvalue hletters =>
      cases hlongerLast with
      | @capture _ longerValue _ _ longerBehind _ hlongerLetters =>
        obtain ⟨rfl, rfl⟩ := spells_letters_iff.mp hletters
        obtain ⟨rfl, rfl⟩ := spells_letters_iff.mp hlongerLetters
        have hsuffix : longerBehind <:+ front ++ start ++ value ++ longerBehind ++ ['\n'] :=
          ⟨longerStart ++ longerValue, by simpa using heq.symm⟩
        have hswap := append_lineFeed_of_suffix hsuffix
        have hmore : IsValue (value ++ ['\n']) := by
          refine ⟨List.append_ne_nil_of_left_ne_nil hvalue.1 _, ?_⟩
          simpa using hvalue.2
        refine ⟨firstValues ++ [value ++ ['\n']], spells_append_iff.mpr
          ⟨_, _, start, value ++ ['\n'] ++ longerBehind, rfl, ?_, hstart, .capture hmore hletters⟩⟩
        rw [List.append_assoc, List.append_assoc, List.append_assoc, hswap]
        rfl

/-- The values that the matcher finds in a path that is spelled spell it to its end. -/
theorem Spells.of_valuesIn {others : List (List Char)} (h : Spells parts others path)
    (hvalues : parts.valuesIn path = some values) : Spells parts values path := by
  induction parts generalizing others path values with
  | nil =>
    cases h
    obtain ⟨_, rfl⟩ := valuesIn_nil_eq_some.mp hvalues
    exact .nil
  | cons part parts ih =>
    cases h with
    | letter h =>
      rw [valuesIn, if_pos rfl] at hvalues
      exact .letter (ih h hvalues)
    | @capture name value _ others path hvalue h =>
      obtain ⟨longest, rest, found, heq, hlongest, rfl, hfound, hlast⟩ :=
        valuesIn_capture_eq_some.mp hvalues
      have hreach : value.length ≤ longest.length := by
        refine Nat.le_of_not_lt fun hlt => ?_
        have hsome := h.isSome_valuesIn (Or.inl rfl)
        rw [List.append_nil, hlast value path rfl hvalue hlt] at hsome
        cases hsome
      obtain ⟨extra, rfl⟩ : value <+: longest :=
        List.prefix_of_prefix_length_le ⟨path, rfl⟩ ⟨rest, heq.symm⟩ hreach
      rw [List.append_assoc] at heq
      obtain rfl := List.append_cancel_left heq
      rw [← List.append_assoc]
      refine .capture hlongest ?_
      obtain ⟨front, ending, rfl, rfl | rfl, hspells⟩ := spells_of_valuesIn hfound
      · rwa [List.append_nil]
      · rw [← List.append_assoc] at h
        obtain ⟨_, hmore⟩ := hspells.exists_spells_lineFeed h
        exact ih hmore hfound

end Spelling

section Instances

variable {text path : List Char} {bindings : List (String × String)}

/-- The names of parts that begin with a variable. -/
theorem names_capture (name : List Char) (parts : Template) :
    names (.capture name :: parts) = String.ofList name :: names parts := rfl

/-- The names of parts that begin with a letter. -/
theorem names_letter (c : Char) (parts : Template) : names (.letter c :: parts) = names parts := rfl

/-- The names of parts and of those behind them. -/
theorem names_append (front behind : Template) :
    names (front ++ behind) = names front ++ names behind :=
  List.filterMap_append

/-- A text with its variables replaced spells a path by its parts. -/
theorem replaces_iff : Replaces text bindings path ↔
    bindings.map (·.1) = names (parseFrom 0 text) ∧
      Spells (parseFrom 0 text) (bindings.map (·.2.toList)) path := by
  constructor
  · intro h
    induction h with
    | nil => exact ⟨rfl, .nil⟩
    | capture hname hvalue h ih =>
      rw [parseFrom_variable hname, names_capture, String.ofList_toList]
      exact ⟨congrArg _ ih.1, .capture hvalue ih.2⟩
    | letter hletter h ih =>
      rw [parseFrom_letter hletter, names_letter]
      exact ⟨ih.1, .letter ih.2⟩
  · induction text using text_induction generalizing bindings path with
    | nil =>
      rintro ⟨hnames, hspells⟩
      obtain rfl := List.map_eq_nil_iff.mp hnames
      cases hspells
      exact .nil
    | capture name text hname ih =>
      rw [parseFrom_variable hname, names_capture]
      rintro ⟨hnames, hspells⟩
      cases bindings with
      | nil => cases hnames
      | cons binding bindings =>
        obtain ⟨key, value⟩ := binding
        obtain ⟨hkey, hrest⟩ := List.cons_eq_cons.mp hnames
        have hwritten : key.toList = name :=
          (congrArg String.toList hkey).trans String.toList_ofList
        subst hwritten
        cases hspells with
        | capture hvalue hspells => exact .capture hname hvalue (ih ⟨hrest, hspells⟩)
    | letter c text hletter ih =>
      rw [parseFrom_letter hletter, names_letter]
      rintro ⟨hnames, hspells⟩
      cases hspells with
      | letter hspells => exact .letter hletter (ih ⟨hnames, hspells⟩)

/-- What spells a path has a value for every variable. -/
theorem Spells.length_eq {parts : Template} {values : List (List Char)}
    (h : Spells parts values path) : values.length = (names parts).length := by
  induction h with
  | nil => rfl
  | letter h ih => exact ih
  | capture hvalue h ih => exact congrArg Nat.succ ih

/-- What spells a path by the parts of a text replaces the variables of the text. -/
theorem Spells.exists_replaces {values : List (List Char)}
    (h : Spells (parseFrom 0 text) values path) :
    ∃ bindings, Replaces text bindings path ∧
      bindings.map (·.2) = values.map String.ofList := by
  have hlength : (names (parseFrom 0 text)).length = (values.map String.ofList).length := by
    rw [List.length_map, h.length_eq]
  have hvalues := List.map_snd_zip (Nat.le_of_eq hlength.symm)
  refine ⟨(names (parseFrom 0 text)).zip (values.map String.ofList),
    replaces_iff.mpr ⟨List.map_fst_zip (Nat.le_of_eq hlength), ?_⟩, hvalues⟩
  have htexts : ((names (parseFrom 0 text)).zip (values.map String.ofList)).map (·.2.toList) =
      values := by
    calc ((names (parseFrom 0 text)).zip (values.map String.ofList)).map (·.2.toList)
      _ = (((names (parseFrom 0 text)).zip (values.map String.ofList)).map (·.2)).map
          String.toList := by
        rw [List.map_map]
        rfl
      _ = values := by
        rw [hvalues, List.map_map]
        exact List.map_id'' (fun _ => String.toList_ofList) values
  rwa [htexts]

/-- The expression that a template stands for matches the instances of the template, and besides
them, when they are none themselves, the instances with a line feed behind them. What its groups
take, and the template finds, is what stands in the places of the variables, in order. -/
theorem match?_instances_up_to_lineFeed (template path : String) :
    let found := (parse template).match? path
    Pattern.groupsAtFront? (parse template).regex path = found ∧
    (∀ values, found = some values → ∃ front bindings,
      Replaces template.toList bindings front.toList ∧ bindings.map (·.2) = values ∧
        (path = front ∨ path = front ++ "\n" ∧ ¬IsInstance template path)) ∧
    (IsInstance template path ∨ (∃ front, path = front ++ "\n" ∧ IsInstance template front) →
      found.isSome = true) := by
  refine ⟨Pattern.groupsAtFront?_regex _ _, ?_⟩
  unfold parse match?
  constructor
  · intro values hvalues
    obtain ⟨found, hfound, rfl⟩ := Option.map_eq_some_iff.mp hvalues
    by_cases hinstance : IsInstance template path
    · obtain ⟨others, hothers⟩ := hinstance
      have hspells := (replaces_iff.mp hothers).2.of_valuesIn hfound
      obtain ⟨bindings, hbindings, heq⟩ := hspells.exists_replaces
      exact ⟨path, bindings, hbindings, heq, Or.inl rfl⟩
    · obtain ⟨front, ending, hpath, hending, hspells⟩ := spells_of_valuesIn hfound
      obtain ⟨bindings, hbindings, heq⟩ := hspells.exists_replaces
      rcases hending with rfl | rfl
      · rw [List.append_nil] at hpath
        exact absurd ⟨bindings, hpath ▸ hbindings⟩ hinstance
      · refine ⟨String.ofList front, bindings, ?_, heq, Or.inr ⟨?_, hinstance⟩⟩
        · rwa [String.toList_ofList]
        · rw [← String.toList_inj, String.toList_append, String.toList_ofList]
          exact hpath
  · rw [Option.isSome_map]
    rintro (⟨bindings, h⟩ | ⟨front, rfl, bindings, h⟩)
    · rw [← List.append_nil path.toList]
      exact (replaces_iff.mp h).2.isSome_valuesIn (Or.inl rfl)
    · rw [String.toList_append]
      exact (replaces_iff.mp h).2.isSome_valuesIn (Or.inr rfl)

/-- A template without variables has itself as its only instance, and matches a second path. -/
theorem match?_instances_up_to_lineFeed_pets :
    (parse "/pets").regex = "^/pets$".toList ∧ (parse "/pets").match? "/pets\n" = some [] ∧
      ¬IsInstance "/pets" "/pets\n" ∧
      ∃ front bindings, Replaces "/pets".toList bindings front.toList ∧
        bindings.map (·.2) = [] ∧ "/pets\n" = front ++ "\n" := by
  have hmatch : (parse "/pets").match? "/pets\n" = some [] := rfl
  have hnone : ¬IsInstance "/pets" "/pets\n" := by
    rintro ⟨bindings, h⟩
    have hletters : Spells ("/pets".toList.map .letter) _ "/pets\n".toList := (replaces_iff.mp h).2
    exact absurd (spells_letters_iff.mp hletters).2 (by decide)
  obtain ⟨front, bindings, hreplaces, hvalues, hpath⟩ :=
    (match?_instances_up_to_lineFeed "/pets" "/pets\n").2.1 [] hmatch
  rcases hpath with rfl | ⟨hpath, _⟩
  · exact absurd ⟨bindings, hreplaces⟩ hnone
  · exact ⟨rfl, hmatch, hnone, front, bindings, hreplaces, hvalues, hpath⟩

end Instances

end Template

end HttpContract
