import HttpContract.Text.Case

/-!
# Lower case is lower case already

A text in lower case stays as it is when it is put in lower case once more. The case table decides
this: no run of it maps a code point to one that it maps in turn, and neither form of the small
sigma is mapped.
-/

namespace HttpContract

namespace CaseRun

/-- Where a run maps a code point. -/
def image (run : CaseRun) (code : Nat) : Nat := ((code : Int) + run.distance).toNat

/-- Whether the images under a run are no code points of another one: they end before those, start
behind them, or fall between those of a run that has every second code point. -/
def avoids (run other : CaseRun) : Bool :=
  (run.image run.last).blt other.first || other.last.blt (run.image run.first) ||
    (other.step.beq 2 && (run.step.beq 2 || run.first.beq run.last) &&
      (run.image run.first != 0) && Nat.beq ((run.image run.first + other.first) % 2) 1)

/-- A run maps every code point of its range that is in step with the first. -/
theorem covers_iff {run : CaseRun} {code : Nat} :
    run.covers code = true ↔
      run.first ≤ code ∧ code ≤ run.last ∧ (code - run.first) % run.step = 0 := by
  simp [covers, and_assoc]

/-- What a run maps to is not covered by a run that is avoided. -/
theorem covers_image_of_avoids {run other : CaseRun} (h : run.avoids other = true) {code : Nat}
    (hcovers : run.covers code = true) : other.covers (run.image code) = false := by
  obtain ⟨hfirst, hlast, hstep⟩ := covers_iff.mp hcovers
  rw [← Bool.not_eq_true, covers_iff]
  rintro ⟨hotherFirst, hotherLast, hotherStep⟩
  simp only [avoids, Bool.or_eq_true, Bool.and_eq_true, Nat.blt_eq, Nat.beq_eq, bne_iff_ne] at h
  unfold image at h hotherFirst hotherLast hotherStep
  rcases h with (hbefore | hbehind) | ⟨⟨⟨hsecond, hsame⟩, hpositive⟩, hbetween⟩
  · omega
  · omega
  · rw [hsecond] at hotherStep
    rcases hsame with htwo | hsingle
    · rw [htwo] at hstep
      omega
    · omega

end CaseRun

/-- A code point is mapped by a run that covers it, or it stays and no run does. -/
theorem mapByRuns_cases (runs : Array CaseRun) (code : Nat) :
    (∃ run ∈ runs, run.covers code = true ∧ mapByRuns runs code = run.image code) ∨
      ((∀ run ∈ runs, run.covers code = false) ∧ mapByRuns runs code = code) := by
  unfold mapByRuns
  cases hfound : runs.find? (·.covers code) with
  | some run =>
    have hcovers : run.covers code = true := by simpa using Array.find?_some hfound
    exact Or.inl ⟨run, Array.mem_of_find?_eq_some hfound, hcovers, rfl⟩
  | none => exact Or.inr ⟨by simpa using hfound, rfl⟩

/-- The runs that characters are put in lower case by, with one for the dotted capital, which loses
its dot. -/
def lowerings : List CaseRun := ⟨0x130, 0x130, 1, -199⟩ :: lowerRuns.toList

/-- The runs of the table are among them. -/
theorem mem_lowerings {run : CaseRun} (h : run ∈ lowerRuns) : run ∈ lowerings :=
  List.mem_cons_of_mem _ (Array.mem_toList_iff.mpr h)

/-- No run maps a code point to one that a run maps in turn. -/
theorem all_avoids_lowerings : (lowerings.all fun run => lowerings.all run.avoids) = true := by
  decide +kernel

/-- Of the first code points only one run maps any, and these are the capitals. -/
theorem capitals_or_le_first :
    ∀ run ∈ lowerings, (run.first = 65 ∧ run.last = 90) ∨ 128 ≤ run.first := by
  decide +kernel

/-- The capitals are mapped. -/
theorem exists_capitals : ∃ run ∈ lowerings, run.first = 65 ∧ run.last = 90 ∧ run.step = 1 := by
  decide +kernel

/-- Whether a code point stays as it is in lower case. -/
def IsLowered (code : Nat) : Prop := ∀ run ∈ lowerings, run.covers code = false

instance (code : Nat) : Decidable (IsLowered code) :=
  inferInstanceAs (Decidable (∀ run ∈ lowerings, _))

/-- Of the first code points those of capitals do not stay, and all others do. -/
theorem isLowered_iff_of_lt {code : Nat} (hsmall : code < 128) :
    IsLowered code ↔ ¬(65 ≤ code ∧ code ≤ 90) := by
  constructor
  · rintro h ⟨hfirst, hlast⟩
    obtain ⟨run, hrun, hrunFirst, hrunLast, hstep⟩ := exists_capitals
    have hcovers : run.covers code = true := by
      rw [CaseRun.covers_iff, hrunFirst, hrunLast, hstep]
      exact ⟨hfirst, hlast, Nat.mod_one _⟩
    rw [h run hrun] at hcovers
    cases hcovers
  · intro hother run hrun
    rw [← Bool.not_eq_true, CaseRun.covers_iff]
    rintro ⟨hfirst, hlast, _⟩
    rcases capitals_or_le_first run hrun with ⟨hrunFirst, hrunLast⟩ | hlarge
    · omega
    · omega

/-- The capitals with a rule of their own do not stay. -/
theorem not_isLowered_special : ¬IsLowered 0x130 ∧ ¬IsLowered 0x3A3 := by
  decide +kernel

/-- What these capitals become stays. -/
theorem isLowered_special : IsLowered 0x307 ∧ IsLowered 0x3C2 ∧ IsLowered 0x3C3 := by
  decide +kernel

/-- Where the runs map a code point, no run maps it further, if the dotted capital is left out. -/
theorem isLowered_mapByRuns {code : Nat} (hdotted : code ≠ 0x130) :
    IsLowered (mapByRuns lowerRuns code) := by
  rcases mapByRuns_cases lowerRuns code with ⟨run, hrun, hcovers, hmapped⟩ | ⟨hnone, hmapped⟩
  · intro other hother
    have havoids := List.all_eq_true.mp all_avoids_lowerings run (mem_lowerings hrun)
    rw [hmapped]
    exact CaseRun.covers_image_of_avoids (List.all_eq_true.mp havoids other hother) hcovers
  · rw [hmapped]
    intro run hrun
    rcases List.mem_cons.mp hrun with rfl | hrun
    · rw [← Bool.not_eq_true, CaseRun.covers_iff]
      rintro ⟨hfirst, hlast, _⟩
      dsimp only at hfirst hlast
      omega
    · exact hnone run (Array.mem_toList_iff.mp hrun)

/-- A code point that stays is mapped to itself. -/
theorem IsLowered.mapByRuns_eq {code : Nat} (h : IsLowered code) :
    mapByRuns lowerRuns code = code := by
  rcases mapByRuns_cases lowerRuns code with ⟨run, hrun, hcovers, _⟩ | ⟨_, hmapped⟩
  · rw [h run (mem_lowerings hrun)] at hcovers
    cases hcovers
  · exact hmapped

/-- A character has the code point that it is made of, or else that is no character's. -/
theorem toNat_ofNat (code : Nat) :
    (Char.ofNat code).toNat = code ∨ (Char.ofNat code).toNat = 0 := by
  by_cases hvalid : code.isValidChar
  · rw [Char.ofNat, dif_pos hvalid]
    exact Or.inl rfl
  · rw [Char.ofNat, dif_neg hvalid]
    exact Or.inr rfl

/-- A character whose code point stays is its own lower case form. -/
theorem simpleLower_of_isLowered {c : Char} (h : IsLowered c.toNat) : simpleLower c = c := by
  have hdotted : c.toNat ≠ 0x130 := fun heq => not_isLowered_special.1 (heq ▸ h)
  unfold simpleLower
  dsimp only
  by_cases hsmall : c.toNat < 128
  · rw [if_pos hsmall, if_neg ((isLowered_iff_of_lt hsmall).mp h)]
  · rw [if_neg hsmall, if_neg hdotted, h.mapByRuns_eq, Char.ofNat_toNat]

/-- The one-character lower case form of a character stays as it is. -/
theorem isLowered_simpleLower (c : Char) : IsLowered (simpleLower c).toNat := by
  have hmade {code : Nat} (h : IsLowered code) : IsLowered (Char.ofNat code).toNat := by
    rcases toNat_ofNat code with heq | heq
    · rwa [heq]
    · rw [heq]
      exact (isLowered_iff_of_lt (by decide)).mpr (by decide)
  unfold simpleLower
  dsimp only
  split
  · rename_i hsmall
    split
    · rename_i hcapital
      exact hmade ((isLowered_iff_of_lt (by omega)).mpr (by omega))
    · rename_i hother
      exact (isLowered_iff_of_lt hsmall).mpr hother
  · split
    · exact (isLowered_iff_of_lt (by decide)).mpr (by decide)
    · rename_i hdotted
      exact hmade (isLowered_mapByRuns hdotted)

/-- Every character of a lower case form stays as it is. -/
theorem isLowered_of_mem_lowerFrom {before cs : List Char} {c : Char}
    (h : c ∈ lowerFrom before cs) : IsLowered c.toNat := by
  obtain ⟨hdot, hfinal, hsmall⟩ := isLowered_special
  induction cs generalizing before with
  | nil => cases h
  | cons first rest ih =>
    rw [lowerFrom] at h
    rcases List.mem_append.mp h with h | h
    · split at h
      · rw [List.mem_singleton.mp h]
        split
        · exact hfinal
        · exact hsmall
      · rw [lowerOf] at h
        split at h
        · simp only [List.mem_cons, List.not_mem_nil, or_false] at h
          rcases h with rfl | rfl
          · exact (isLowered_iff_of_lt (by decide)).mpr (by decide)
          · exact hdot
        · rw [List.mem_singleton.mp h]
          exact isLowered_simpleLower first
    · exact ih h

/-- Characters that all stay as they are make a lower case form, whatever stands in front. -/
theorem lowerFrom_of_isLowered {cs : List Char} (h : ∀ c ∈ cs, IsLowered c.toNat)
    (before : List Char) : lowerFrom before cs = cs := by
  induction cs generalizing before with
  | nil => rfl
  | cons c rest ih =>
    obtain ⟨hc, hrest⟩ := List.forall_mem_cons.mp h
    have hsigma : c.toNat ≠ 0x3A3 := fun heq => not_isLowered_special.2 (heq ▸ hc)
    have hdotted : c.toNat ≠ 0x130 := fun heq => not_isLowered_special.1 (heq ▸ hc)
    rw [lowerFrom, if_neg hsigma, lowerOf, if_neg hdotted, simpleLower_of_isLowered hc,
      ih hrest, List.singleton_append]

/-- A text in lower case is its own lower case form. -/
@[simp] theorem lowerText_lowerText (s : String) : lowerText (lowerText s) = lowerText s := by
  have hlowered : ∀ c ∈ lowerFrom [] s.toList, IsLowered c.toNat :=
    fun _ => isLowered_of_mem_lowerFrom
  rw [lowerText, lowerText, String.toList_ofList, lowerFrom_of_isLowered hlowered]

end HttpContract
