/-!
# Blanks

White space in the Unicode sense, together with the four separators of the control range.
Trimming and splitting of texts are stated on lists of characters.
-/

namespace HttpContract

/-- White space of any script, and the separators U+001C to U+001F. -/
def isBlank (c : Char) : Bool :=
  let code := c.toNat
  (9 ≤ code && code ≤ 13) || (28 ≤ code && code ≤ 32) || code == 0x85 || code == 0xA0 ||
    code == 0x1680 || (0x2000 ≤ code && code ≤ 0x200A) || code == 0x2028 || code == 0x2029 ||
    code == 0x202F || code == 0x205F || code == 0x3000

/-- The list without the elements at either end that satisfy `p`. -/
def stripBoth (p : Char → Bool) (cs : List Char) : List Char :=
  ((cs.dropWhile p).reverse.dropWhile p).reverse

/-- A text without blanks at either end. -/
def trimBlanks (s : String) : String := String.ofList (stripBoth isBlank s.toList)

/-- The pieces of a list between the occurrences of a separator; there is always one. -/
def splitAtEach (separator : Char) : List Char → List (List Char)
  | [] => [[]]
  | c :: rest =>
    if c = separator then [] :: splitAtEach separator rest
    else match splitAtEach separator rest with
      | piece :: pieces => (c :: piece) :: pieces
      | [] => [[c]]

/-- There is always a piece. -/
theorem splitAtEach_ne_nil (separator : Char) (cs : List Char) : splitAtEach separator cs ≠ [] := by
  cases cs with
  | nil => simp [splitAtEach]
  | cons c rest =>
    by_cases h : c = separator
    · simp [splitAtEach, h]
    · cases hr : splitAtEach separator rest <;> simp [splitAtEach, h, hr]

/-- The pieces with the separator between them make up the list. -/
theorem intercalate_splitAtEach (separator : Char) (cs : List Char) :
    [separator].intercalate (splitAtEach separator cs) = cs := by
  induction cs with
  | nil => rfl
  | cons c rest ih =>
    obtain ⟨piece, pieces, hr⟩ := List.exists_cons_of_ne_nil (splitAtEach_ne_nil separator rest)
    by_cases h : c = separator
    · rw [splitAtEach, if_pos h,
        List.intercalate_cons_of_ne_nil (splitAtEach_ne_nil separator rest), ih, h]
      rfl
    · rw [hr] at ih
      rw [splitAtEach, if_neg h, hr, ← ih]
      cases pieces <;> simp [List.intercalate]

/-- No piece holds the separator. -/
theorem not_mem_of_mem_splitAtEach {separator : Char} {cs piece : List Char}
    (h : piece ∈ splitAtEach separator cs) : separator ∉ piece := by
  induction cs generalizing piece with
  | nil => simp_all [splitAtEach]
  | cons c rest ih =>
    obtain ⟨first, pieces, hr⟩ := List.exists_cons_of_ne_nil (splitAtEach_ne_nil separator rest)
    rw [hr] at ih
    by_cases hc : c = separator
    · rw [splitAtEach, if_pos hc, hr, List.mem_cons] at h
      rcases h with rfl | h
      · exact List.not_mem_nil
      · exact ih h
    · rw [splitAtEach, if_neg hc, hr, List.mem_cons] at h
      rcases h with rfl | h
      · simp [Ne.symm hc, ih (List.mem_cons_self ..)]
      · exact ih (List.mem_cons_of_mem _ h)

/-- The pieces of a text between the occurrences of a separator. -/
def splitText (separator : Char) (s : String) : List String :=
  (splitAtEach separator s.toList).map String.ofList

/-- Texts joined with a separator between neighbours. -/
def joinTexts (separator : String) : List String → String
  | [] => ""
  | [s] => s
  | s :: rest => s ++ separator ++ joinTexts separator rest

end HttpContract
