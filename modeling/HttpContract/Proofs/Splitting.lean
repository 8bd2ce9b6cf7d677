import HttpContract.Text.Blank

/-!
# Splitting what was joined

Texts that are joined with a separator and split at it again fall into the pieces of each text. They
come back as they were exactly when none of them holds the separator.
-/

namespace HttpContract

variable {separator : Char} {cs : List Char}

/-- The pieces are those of the library. -/
theorem splitAtEach_eq_splitOn (separator : Char) (cs : List Char) :
    splitAtEach separator cs = cs.splitOn separator := by
  induction cs with
  | nil => rfl
  | cons c rest ih =>
    rw [splitAtEach, List.splitOn_cons_eq_if_modifyHead, ← ih]
    obtain ⟨piece, pieces, hr⟩ := List.exists_cons_of_ne_nil (splitAtEach_ne_nil separator rest)
    by_cases h : c = separator
    · rw [if_pos h, if_pos (beq_iff_eq.mpr h)]
    · rw [if_neg h, if_neg (fun heq => h (beq_iff_eq.mp heq)), hr]
      rfl

/-- A text without the separator is the only piece of it. -/
theorem splitAtEach_of_notMem (h : separator ∉ cs) : splitAtEach separator cs = [cs] := by
  rw [splitAtEach_eq_splitOn]
  exact List.splitOn_eq_singleton h

/-- A separator ends a piece. -/
theorem splitAtEach_append_cons (front behind : List Char) :
    splitAtEach separator (front ++ separator :: behind) =
      splitAtEach separator front ++ splitAtEach separator behind := by
  rw [splitAtEach_eq_splitOn, splitAtEach_eq_splitOn, splitAtEach_eq_splitOn]
  exact List.splitOn_append_cons_self front behind

/-- Texts with the separator between them are split into the pieces of each. -/
theorem splitAtEach_intercalate {pieces : List (List Char)} (h : pieces ≠ []) :
    splitAtEach separator ([separator].intercalate pieces) =
      pieces.flatMap (splitAtEach separator) := by
  induction pieces with
  | nil => exact absurd rfl h
  | cons first others ih =>
    cases others with
    | nil => rw [List.intercalate_singleton, List.flatMap_singleton]
    | cons second others =>
      rw [List.intercalate_cons_cons, List.append_assoc, List.singleton_append,
        splitAtEach_append_cons, ih (List.cons_ne_nil second others)]
      rfl

/-- Texts joined with a separator are split into the pieces of each. -/
theorem splitText_intercalate {items : List String} (h : items ≠ []) :
    splitText separator (String.ofList ([separator].intercalate (items.map String.toList))) =
      items.flatMap (splitText separator) := by
  have hpieces : items.map String.toList ≠ [] := fun he => h (List.map_eq_nil_iff.mp he)
  unfold splitText
  rw [String.toList_ofList, splitAtEach_intercalate hpieces, List.flatMap_map, List.map_flatMap]

/-- Texts are joined as the library does it. -/
theorem joinTexts_eq_intercalate (separator : String) (items : List String) :
    joinTexts separator items = separator.intercalate items := by
  induction items with
  | nil => exact String.intercalate_nil.symm
  | cons first others ih =>
    cases others with
    | nil => exact String.intercalate_singleton.symm
    | cons second others =>
      rw [String.intercalate_cons_cons, ← ih]
      rfl

/-- Texts joined with a separator are split into the pieces of each. -/
theorem splitText_joinTexts {items : List String} (h : items ≠ []) :
    splitText separator (joinTexts (String.singleton separator) items) =
      items.flatMap (splitText separator) := by
  have hjoined : joinTexts (String.singleton separator) items =
      String.ofList ([separator].intercalate (items.map String.toList)) := by
    rw [← String.toList_inj, joinTexts_eq_intercalate, String.toList_intercalate,
      String.toList_ofList, String.toList_singleton]
  rw [hjoined, splitText_intercalate h]

/-- There is always a piece of a text. -/
theorem length_splitText_pos (separator : Char) (s : String) :
    0 < (splitText separator s).length := by
  rw [splitText, List.length_map]
  exact List.length_pos_iff.mpr (splitAtEach_ne_nil separator s.toList)

/-- A text without the separator is its only piece. -/
theorem splitText_of_notMem {s : String} (h : separator ∉ s.toList) :
    splitText separator s = [s] := by
  rw [splitText, splitAtEach_of_notMem h, List.map_singleton, String.ofList_toList]

/-- A text with the separator has more than one piece. -/
theorem notMem_of_length_splitText {s : String} (h : (splitText separator s).length = 1) :
    separator ∉ s.toList := by
  intro hmem
  obtain ⟨front, behind, hs⟩ := List.append_of_mem hmem
  rw [splitText, hs, splitAtEach_append_cons, List.length_map, List.length_append] at h
  have hfront := List.length_pos_iff.mpr (splitAtEach_ne_nil separator front)
  have hbehind := List.length_pos_iff.mpr (splitAtEach_ne_nil separator behind)
  omega

end HttpContract
