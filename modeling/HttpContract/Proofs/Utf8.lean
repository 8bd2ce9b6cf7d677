import HttpContract.Text.Encoding

/-!
# Reading UTF-8 that was written

The bytes of a character begin with a lead byte that tells their number. A lenient reading of the
bytes of characters gives the characters back.
-/

namespace HttpContract

namespace Utf8

variable {lead b c d : UInt8} {rest : List UInt8}

/-- A number below 256 is kept by a byte. -/
theorem toNat_ofNat {n : Nat} (h : n < 256) : (UInt8.ofNat n).toNat = n := by
  rw [UInt8.toNat_ofNat']
  exact Nat.mod_eq_of_lt h

/-- The range of continuation bytes. -/
theorem isTail_iff : isTail b = true ↔ 128 ≤ b.toNat ∧ b.toNat < 192 := by
  simp [isTail, UInt8.le_iff_toNat_le, UInt8.lt_iff_toNat_lt]

/-- The second bytes that are allowed behind a lead byte. -/
theorem allowsSecond_iff : allowsSecond lead b = true ↔
    isTail b = true ∧ (lead.toNat = 224 → 160 ≤ b.toNat) ∧ (lead.toNat = 240 → 144 ≤ b.toNat) ∧
      (lead.toNat = 244 → b.toNat < 144) := by
  unfold allowsSecond
  rw [Bool.and_eq_true]
  refine and_congr_right fun _ => ?_
  simp only [beq_iff_eq, ← UInt8.toNat_inj, UInt8.reduceToNat]
  split
  · simp only [decide_eq_true_eq, UInt8.le_iff_toNat_le, UInt8.reduceToNat]
    omega
  · split
    · simp only [decide_eq_true_eq, UInt8.le_iff_toNat_le, UInt8.reduceToNat]
      omega
    · split
      · simp only [decide_eq_true_eq, UInt8.lt_iff_toNat_lt, UInt8.reduceToNat]
        omega
      · simp only [true_iff]
        omega

/-- A byte below 128 is a code of its own. -/
theorem front_of_one (h : lead.toNat < 128) : front lead rest = .code lead.toNat 1 := by
  have hone : lead < 0x80 := UInt8.lt_iff_toNat_lt.mpr h
  unfold front
  rw [if_pos hone]

/-- A lead byte of more than one byte is neither a byte of its own nor a bad one. -/
theorem front_of_lead (hlow : 194 ≤ lead.toNat) (hhigh : lead.toNat < 245) :
    ¬lead < 0x80 ∧ ¬(lead < 0xC2 || 0xF5 ≤ lead) = true := by
  simp only [Bool.or_eq_true, decide_eq_true_eq, UInt8.lt_iff_toNat_lt, UInt8.le_iff_toNat_le,
    UInt8.reduceToNat]
  omega

/-- The code of two bytes. -/
theorem front_of_two (hlow : 194 ≤ lead.toNat) (hhigh : lead.toNat < 224) (hb : isTail b = true) :
    front lead (b :: rest) = .code (lead.toNat % 32 * 64 + tailBits b) 2 := by
  obtain ⟨hone, hstart⟩ := front_of_lead hlow (by omega)
  have htwo : lead < 0xE0 := UInt8.lt_iff_toNat_lt.mpr hhigh
  unfold front
  rw [if_neg hone, if_neg hstart, if_pos htwo]
  exact if_pos hb

/-- The code of three bytes. -/
theorem front_of_three (hlow : 224 ≤ lead.toNat) (hhigh : lead.toNat < 240)
    (hb : allowsSecond lead b = true) (hsurrogate : lead.toNat = 237 → b.toNat < 160)
    (hc : isTail c = true) :
    front lead (b :: c :: rest) =
      .code (lead.toNat % 16 * 4096 + tailBits b * 64 + tailBits c) 3 := by
  obtain ⟨hone, hstart⟩ : ¬lead < 0x80 ∧ ¬(lead < 0xC2 || 0xF5 ≤ lead) = true :=
    front_of_lead (by omega) (by omega)
  have htwo : ¬lead < 0xE0 := by
    rw [UInt8.lt_iff_toNat_lt]
    exact Nat.not_lt.mpr hlow
  have hthree : lead < 0xF0 := UInt8.lt_iff_toNat_lt.mpr hhigh
  have hallows : (allowsSecond lead b && !(lead == 0xED && 0xA0 ≤ b)) = true := by
    simp only [hb, Bool.true_and, Bool.not_eq_true', Bool.and_eq_false_iff, beq_eq_false_iff_ne,
      decide_eq_false_iff_not, ne_eq, ← UInt8.toNat_inj, UInt8.le_iff_toNat_le, UInt8.reduceToNat]
    omega
  unfold front
  rw [if_neg hone, if_neg hstart, if_neg htwo, if_pos hthree]
  simp only [hallows, hc]
  rfl

/-- The code of four bytes. -/
theorem front_of_four (hlow : 240 ≤ lead.toNat) (hhigh : lead.toNat < 245)
    (hb : allowsSecond lead b = true) (hc : isTail c = true) (hd : isTail d = true) :
    front lead (b :: c :: d :: rest) =
      .code (lead.toNat % 8 * 262144 + tailBits b * 4096 + tailBits c * 64 + tailBits d) 4 := by
  obtain ⟨hone, hstart⟩ := front_of_lead (by omega) hhigh
  have htwo : ¬lead < 0xE0 := by
    rw [UInt8.lt_iff_toNat_lt]
    exact Nat.not_lt.mpr (by omega : 224 ≤ lead.toNat)
  have hthree : ¬lead < 0xF0 := by
    rw [UInt8.lt_iff_toNat_lt]
    exact Nat.not_lt.mpr hlow
  unfold front
  rw [if_neg hone, if_neg hstart, if_neg htwo, if_neg hthree]
  dsimp only
  rw [hb, hc, hd]
  rfl

/-- The character of a character's code is this character. -/
theorem charOrReplacement_toNat (c : Char) : charOrReplacement c.toNat = c := by
  have hvalid : c.toNat.isValidChar := c.valid
  rw [charOrReplacement, dif_pos hvalid]
  exact Char.ext (UInt32.toNat_inj.mp rfl)

/-- The byte that carries the last six bits of a number. -/
theorem tail_ofNat (n : Nat) :
    isTail (UInt8.ofNat (n % 64 + 128)) = true ∧
      tailBits (UInt8.ofNat (n % 64 + 128)) = n % 64 := by
  rw [isTail_iff, tailBits, toNat_ofNat (by omega)]
  omega

/-- The bytes of a character are read as its code. -/
theorem front_utf8EncodeChar (c : Char) (rest : List UInt8) :
    ∃ lead tail, String.utf8EncodeChar c = lead :: tail ∧
      front lead (tail ++ rest) = .code c.toNat (tail.length + 1) := by
  have hvalid : c.val.toNat < 0xD800 ∨ 0xDFFF < c.val.toNat ∧ c.val.toNat < 0x110000 := c.valid
  unfold String.utf8EncodeChar Char.toNat
  dsimp only
  generalize c.val.toNat = v at hvalid
  obtain ⟨hb, hbits⟩ := tail_ofNat v
  split
  · have hlead : (UInt8.ofNat v).toNat = v := toNat_ofNat (by omega)
    refine ⟨_, _, rfl, ?_⟩
    rw [front_of_one (by omega), hlead]
    rfl
  · split
    · have hlead : (UInt8.ofNat (v / 64 % 32 + 192)).toNat = v / 64 % 32 + 192 :=
        toNat_ofNat (by omega)
      refine ⟨_, _, rfl, ?_⟩
      rw [List.cons_append, front_of_two (by omega) (by omega) hb, hbits, hlead]
      congr 1
      omega
    · obtain ⟨hc, hcbits⟩ := tail_ofNat (v / 64)
      have hsecond : (UInt8.ofNat (v / 64 % 64 + 128)).toNat = v / 64 % 64 + 128 :=
        toNat_ofNat (by omega)
      split
      · have hlead : (UInt8.ofNat (v / 4096 % 16 + 224)).toNat = v / 4096 % 16 + 224 :=
          toNat_ofNat (by omega)
        refine ⟨_, _, rfl, ?_⟩
        rw [List.cons_append, List.cons_append, front_of_three (by omega) (by omega)
          (allowsSecond_iff.mpr ⟨hc, by omega⟩) (by omega) hb, hbits, hcbits, hlead]
        congr 1
        omega
      · obtain ⟨hd, hdbits⟩ := tail_ofNat (v / 4096)
        have hlead : (UInt8.ofNat (v / 262144 % 8 + 240)).toNat = v / 262144 % 8 + 240 :=
          toNat_ofNat (by omega)
        have hsecond : (UInt8.ofNat (v / 4096 % 64 + 128)).toNat = v / 4096 % 64 + 128 :=
          toNat_ofNat (by omega)
        refine ⟨_, _, rfl, ?_⟩
        rw [List.cons_append, List.cons_append, List.cons_append, front_of_four (by omega)
          (by omega) (allowsSecond_iff.mpr ⟨hd, by omega⟩) hc hb, hbits, hcbits, hdbits, hlead]
        congr 1
        omega

/-- Bytes that belong to a character read before are passed over. -/
theorem decodeLenient_append_skip (tail rest : List UInt8) :
    decodeLenient tail.length (tail ++ rest) = decodeLenient 0 rest := by
  induction tail with
  | nil => rfl
  | cons b tail ih => exact ih

/-- The bytes of a character are read as this character. -/
theorem decodeLenient_utf8EncodeChar (c : Char) (rest : List UInt8) :
    decodeLenient 0 (String.utf8EncodeChar c ++ rest) = c :: decodeLenient 0 rest := by
  obtain ⟨lead, tail, hencode, hfront⟩ := front_utf8EncodeChar c rest
  rw [hencode, List.cons_append, decodeLenient, hfront]
  dsimp only
  rw [charOrReplacement_toNat, Nat.add_sub_cancel, decodeLenient_append_skip]

/-- The bytes of characters are read as these characters. -/
theorem decodeLenient_flatMap_utf8EncodeChar (cs : List Char) :
    decodeLenient 0 (cs.flatMap String.utf8EncodeChar) = cs := by
  induction cs with
  | nil => rfl
  | cons c cs ih => rw [List.flatMap_cons, decodeLenient_utf8EncodeChar, ih]

end Utf8

end HttpContract
