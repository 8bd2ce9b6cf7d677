import HttpContract.Json.Writer
import HttpContract.Proofs.Decimal
import HttpContract.Proofs.Json.Grammar
import Mathlib.Tactic.ByContra

/-!
# Numbers and strings that are written

Every number that is finite is written as a number of the grammar, and every text as a string of it
that is read again. Digits of doubles stand around a point or in front of a power of ten, and never
begin with a needless zero, for only the digits of zero do.
-/

namespace HttpContract

/-- Zero does not read back as a magnitude that is not zero. -/
theorem Double.pos_of_gridPoint? {mantissa : Nat} {exponent place : Int} {d : Nat}
    (hmantissa : 0 < mantissa) (h : gridPoint? mantissa exponent place = some d) : 0 < d := by
  have hlow : 0 < (roundingInterval mantissa exponent).1 := by
    unfold roundingInterval
    split <;> dsimp only <;> omega
  have hunit : 0 < Nat.pow 2 (exponent - 2).toNat * Nat.pow 10 (-place).toNat :=
    Nat.mul_pos (Nat.pow_pos (by omega)) (Nat.pow_pos (by omega))
  have hproduct := Nat.mul_pos hlow hunit
  unfold gridPoint? at h
  dsimp only at h
  revert hproduct h
  generalize roundingInterval mantissa exponent = interval
  generalize Nat.pow 2 (exponent - 2).toNat * Nat.pow 10 (-place).toNat = unit
  generalize Nat.pow 2 (-(exponent - 2)).toNat * Nat.pow 10 place.toNat = step
  generalize 4 * mantissa * unit / step = below
  intro h hproduct
  have hzero : (if mantissa % 2 = 0 then
      decide (interval.1 * unit ≤ 0 * step) && decide (0 * step ≤ interval.2 * unit)
    else decide (interval.1 * unit < 0 * step) && decide (0 * step < interval.2 * unit)) =
      false := by
    rw [Nat.zero_mul, decide_eq_false (by omega : ¬interval.1 * unit ≤ 0),
      decide_eq_false (by omega : ¬interval.1 * unit < 0)]
    simp
  cases below with
  | zero =>
    rw [hzero] at h
    split at h
    · rename_i heq _
      cases heq
    · rename_i heq _
      cases heq
    · obtain rfl := Option.some.inj h
      omega
    · cases h
  | succ below =>
    have hd : some d = some (below + 1) ∨ some d = some (below + 1 + 1) := by
      split at h
      · split at h
        · exact Or.inl h.symm
        · exact Or.inr h.symm
      · exact Or.inl h.symm
      · exact Or.inr h.symm
      · cases h
    rcases hd with hd | hd
    · have hd := Option.some.inj hd
      omega
    · have hd := Option.some.inj hd
      omega

/-- The shortest digits of a magnitude that is not zero are not those of zero. -/
theorem Double.pos_shortest {mantissa : Nat} (hmantissa : 0 < mantissa) (exponent : Int) :
    0 < (shortest mantissa exponent).1 := by
  unfold shortest
  dsimp only
  cases hfound : (List.range 24).findSome? fun (i : Nat) =>
      (gridPoint? mantissa exponent (decimalOrderBound mantissa exponent - i)).map fun d =>
        (d, decimalOrderBound mantissa exponent - i) with
  | none => exact hmantissa
  | some p =>
    obtain ⟨_, i, _, _, hi, _⟩ := List.findSome?_eq_some_iff.mp hfound
    obtain ⟨d, hd, rfl⟩ := Option.map_eq_some_iff.mp hi
    exact pos_of_gridPoint? hmantissa hd

namespace Hexadecimal

/-- A digit is read as its number. -/
theorem value?_digitChar {n : Nat} (h : n < 16) : value? n.digitChar = some n := by
  revert h
  revert n
  decide

/-- A number below sixteen is written with zeros and one digit. -/
theorem padded_one {n : Nat} (h : n < 16) : padded 1 n = [n.digitChar] := by
  rw [padded, Nat.toDigits_of_lt_base h]
  rfl

/-- The last digit of a number is written behind those of the number without it. -/
theorem padded_succ {width : Nat} (hwidth : 0 < width) (n : Nat) :
    padded (width + 1) n = padded width (n / 16) ++ [(n % 16).digitChar] := by
  unfold padded
  dsimp only
  by_cases hsmall : n < 16
  · obtain ⟨width, rfl⟩ := Nat.exists_eq_add_of_le' hwidth
    rw [Nat.toDigits_of_lt_base hsmall, Nat.div_eq_of_lt hsmall, Nat.mod_eq_of_lt hsmall,
      Nat.toDigits_zero, List.length_singleton, List.length_singleton, Nat.add_sub_cancel,
      Nat.add_sub_cancel, List.replicate_succ']
  · rw [Nat.toDigits_of_base_le (by omega) (by omega), List.length_append, List.length_singleton,
      Nat.add_sub_add_right, List.append_assoc]

end Hexadecimal

namespace JsonGrammar

/-! ### Numbers -/

/-- The digits of a number that is not zero begin with something else than zero. -/
theorem exists_front_toDigits {n : Nat} (hn : 0 < n) :
    ∃ d ds, Nat.toDigits 10 n = d :: ds ∧ d ≠ '0' := by
  induction n using Nat.strongRecOn with
  | ind n ih =>
    by_cases hsmall : n < 10
    · have hdigit : ∀ m < 10, 0 < m → m.digitChar ≠ '0' := by decide
      exact ⟨_, [], Nat.toDigits_of_lt_base hsmall, hdigit n hsmall hn⟩
    · obtain ⟨d, ds, heq, hd⟩ := ih (n / 10) (by omega) (by omega)
      refine ⟨d, ds ++ [(n % 10).digitChar], ?_, hd⟩
      rw [Nat.toDigits_of_base_le (by omega) (by omega), heq]
      rfl

/-- The digits of a number that is not zero are digits, and begin with another one than zero. -/
theorem exists_toDigits {n : Nat} (hn : 0 < n) : ∃ d ds, Nat.toDigits 10 n = d :: ds ∧
    d.isDigit = true ∧ d ≠ '0' ∧ ∀ c ∈ ds, c.isDigit = true := by
  have hdigits := List.all_eq_true.mp (DecimalText.all_isDigit_toDigits n)
  obtain ⟨d, ds, heq, hd⟩ := exists_front_toDigits hn
  rw [heq, List.forall_mem_cons] at hdigits
  exact ⟨d, ds, heq, hdigits.1, hd, hdigits.2⟩

/-- The digits of a number stand in front of the point as they are. -/
theorem isWhole_toDigits (n : Nat) : IsWhole (Nat.toDigits 10 n) := by
  cases n with
  | zero => exact .zero
  | succ n =>
    obtain ⟨d, ds, heq, hd, hzero, hds⟩ := exists_toDigits (Nat.succ_pos n)
    rw [heq]
    exact .digits hd hzero hds

/-- Digits in front of the point are a number. -/
theorem IsWhole.isMagnitude {cs : List Char} (h : IsWhole cs) : IsMagnitude cs := by
  have hmagnitude := IsMagnitude.intro h .none .none
  rwa [List.append_nil, List.append_nil] at hmagnitude

/-- Digits with a point and more digits behind it are a number. -/
theorem IsWhole.isMagnitude_point {cs ds : List Char} (h : IsWhole cs) (hds : IsDigits ds) :
    IsMagnitude (cs ++ '.' :: ds) := by
  have hmagnitude := IsMagnitude.intro h (.digits hds) .none
  rwa [List.append_nil] at hmagnitude

/-- Zeros are digits. -/
theorem isDigit_of_mem_replicate {n : Nat} {c : Char} (h : c ∈ List.replicate n '0') :
    c.isDigit = true := by
  rw [List.eq_of_mem_replicate h]
  rfl

/-- Digits of a number that is not zero, with a point wherever it stands, are a number. -/
theorem isMagnitude_positional {d : Char} {ds : List Char} (hd : d.isDigit = true) (hzero : d ≠ '0')
    (hds : ∀ c ∈ ds, c.isDigit = true) (point : Int) :
    IsMagnitude (FloatLayout.positional (d :: ds) point) := by
  have hall : ∀ c ∈ d :: ds, c.isDigit = true := List.forall_mem_cons.mpr ⟨hd, hds⟩
  unfold FloatLayout.positional
  by_cases hfront : point ≤ 0
  · rw [if_pos hfront]
    refine IsWhole.zero.isMagnitude_point ⟨by simp, fun c hc => ?_⟩
    rcases List.mem_append.mp hc with hc | hc
    · exact isDigit_of_mem_replicate hc
    · exact hall c hc
  rw [if_neg hfront]
  by_cases hbehind : ((d :: ds).length : Int) ≤ point
  · rw [if_pos hbehind]
    have hwhole : IsWhole (d :: (ds ++ List.replicate (point.toNat - (d :: ds).length) '0')) := by
      refine .digits hd hzero fun c hc => ?_
      rcases List.mem_append.mp hc with hc | hc
      · exact hds c hc
      · exact isDigit_of_mem_replicate hc
    have hpoint : IsDigits ['0'] := ⟨by simp, by simp⟩
    exact hwhole.isMagnitude_point hpoint
  · rw [if_neg hbehind]
    obtain ⟨n, hn⟩ : ∃ n, point.toNat = n + 1 := ⟨point.toNat - 1, by omega⟩
    rw [hn, List.take_succ_cons, List.drop_succ_cons]
    have hwhole : IsWhole (d :: ds.take n) :=
      .digits hd hzero fun c hc => hds c (List.mem_of_mem_take hc)
    refine hwhole.isMagnitude_point ⟨?_, fun c hc => hds c (List.mem_of_mem_drop hc)⟩
    rw [ne_eq, List.drop_eq_nil_iff]
    rw [List.length_cons] at hbehind
    omega

/-- Digits of a number that is not zero, with a power of ten, are a number. -/
theorem isMagnitude_scientific {d : Char} {ds : List Char} (hd : d.isDigit = true) (hzero : d ≠ '0')
    (hds : ∀ c ∈ ds, c.isDigit = true) (width : Nat) (power : Int) :
    IsMagnitude (FloatLayout.scientific width (d :: ds) power) := by
  have hwhole : IsWhole [d] := .digits hd hzero (by simp)
  have hfraction : IsFraction (if (d :: ds).length ≤ 1 then [] else '.' :: (d :: ds).drop 1) := by
    by_cases hone : (d :: ds).length ≤ 1
    · rw [if_pos hone]
      exact .none
    · rw [if_neg hone]
      refine .digits ⟨?_, hds⟩
      rintro hnil
      rw [List.drop_succ_cons, List.drop_zero] at hnil
      simp [hnil] at hone
  have hdigits : IsDigits (FloatLayout.padded width (Nat.toDigits 10 power.natAbs)) := by
    refine ⟨by simp [FloatLayout.padded], fun c hc => ?_⟩
    rcases List.mem_append.mp hc with hc | hc
    · exact isDigit_of_mem_replicate hc
    · exact List.all_eq_true.mp (DecimalText.all_isDigit_toDigits _) c hc
  have hpower : IsPower ('e' :: ((if power < 0 then ['-'] else ['+']) ++
      FloatLayout.padded width (Nat.toDigits 10 power.natAbs))) := by
    refine .digits (Or.inl rfl) ?_ hdigits
    split <;> simp
  have hmagnitude := IsMagnitude.intro hwhole hfraction hpower
  have hsign : (if power < 0 then ['-'] else ['+']) = [if power < 0 then '-' else '+'] := by
    split <;> rfl
  rw [hsign] at hmagnitude
  simpa [FloatLayout.scientific] using hmagnitude

/-- Doubles that are finite are written as numbers. -/
theorem isNumber_render (negative : Bool) (mantissa : Nat) (exponent : Int) :
    IsNumber (JsonStyle.bodyFloats.render (.finite negative mantissa exponent)).toList := by
  have hmagnitude : ∃ cs, IsMagnitude cs ∧
      (JsonStyle.bodyFloats.render (.finite negative mantissa exponent)).toList =
        if negative then '-' :: cs else cs := by
    rw [FloatLayout.render, String.toList_ofList]
    refine ⟨_, ?_, rfl⟩
    by_cases hzero : mantissa = 0
    · have hpoint : IsDigits ['0'] := ⟨by simp, by simp⟩
      rw [if_pos hzero]
      exact IsWhole.zero.isMagnitude_point hpoint
    · obtain ⟨d, ds, heq, hd, hfirst, hds⟩ :=
        exists_toDigits (Double.pos_shortest (Nat.pos_of_ne_zero hzero) exponent)
      rw [if_neg hzero]
      dsimp only
      rw [heq]
      split
      · exact isMagnitude_positional hd hfirst hds _
      · exact isMagnitude_scientific hd hfirst hds _ _
  obtain ⟨cs, hmagnitude, heq⟩ := hmagnitude
  rw [heq]
  cases negative with
  | true => exact .minus hmagnitude
  | false => exact .plain hmagnitude

/-- Integers are written as numbers. -/
theorem isNumber_toString (n : Int) : IsNumber (toString n).toList := by
  have hdigits := (isWhole_toDigits n.natAbs).isMagnitude
  rw [DecimalText.toList_toString]
  split
  · exact .plain hdigits
  · exact .minus hdigits

/-! ### Strings -/

variable {cs s rest : List Char} {c : Char}

/-- The four digits of a code are read as this code. -/
theorem hexQuad?_padded {code : Nat} (h : code < 0x10000) (cs : List Char) :
    Json.hexQuad? (Hexadecimal.padded 4 code ++ cs) = some code ∧
      (Hexadecimal.padded 4 code ++ cs).drop 4 = cs := by
  have hdigits : Hexadecimal.padded 4 code = [(code / 16 / 16 / 16).digitChar,
      (code / 16 / 16 % 16).digitChar, (code / 16 % 16).digitChar, (code % 16).digitChar] := by
    rw [Hexadecimal.padded_succ (by omega), Hexadecimal.padded_succ (by omega),
      Hexadecimal.padded_succ (by omega), Hexadecimal.padded_one (by omega)]
    rfl
  rw [hdigits]
  refine ⟨?_, rfl⟩
  have hvalue {n : Nat} (hn : n < 16) := Hexadecimal.value?_digitChar hn
  simp only [Json.hexQuad?, List.cons_append, List.foldlM_cons, List.foldlM_nil]
  rw [hvalue (by omega), hvalue (by omega), hvalue (by omega), hvalue (by omega)]
  simp only [Option.map_some, Option.bind_eq_bind, Option.bind_some, Option.pure_def,
    Option.some.injEq]
  omega

/-- A quote closes a string. -/
theorem characters_quote_iff : Characters ('"' :: cs) s rest ↔ s = [] ∧ rest = cs := by
  constructor
  · intro h
    generalize hall : '"' :: cs = all at h
    cases h with
    | close rest =>
      cases hall
      exact ⟨rfl, rfl⟩
    | plain _ hquote _ _ => exact absurd (List.cons.inj hall).1.symm hquote
    | _ => simp at hall
  · rintro ⟨rfl, rfl⟩
    exact .close _

/-- A character that needs no escape stands for itself. -/
theorem characters_plain_iff (hcontrol : 32 ≤ c.toNat) (hquote : c ≠ '"') (hmark : c ≠ '\\') :
    Characters (c :: cs) s rest ↔ ∃ others, s = c :: others ∧ Characters cs others rest := by
  constructor
  · intro h
    generalize hall : c :: cs = all at h
    cases h with
    | close rest => exact absurd (List.cons.inj hall).1 hquote
    | plain _ _ _ h =>
      cases hall
      exact ⟨_, rfl, h⟩
    | _ => exact absurd (List.cons.inj hall).1 hmark
  · rintro ⟨others, rfl, h⟩
    exact .plain hcontrol hquote hmark h

/-- A letter behind a backslash stands for its character. -/
theorem characters_letter_iff {letter : Char} (hletter : Json.simpleEscape? letter = some c) :
    Characters ('\\' :: letter :: cs) s rest ↔
      ∃ others, s = c :: others ∧ Characters cs others rest := by
  have hunit : letter ≠ 'u' := by
    rintro rfl
    cases hletter
  constructor
  · intro h
    generalize hall : '\\' :: letter :: cs = all at h
    cases h with
    | close rest => simp at hall
    | plain _ _ hmark _ => exact absurd (List.cons.inj hall).1.symm hmark
    | letter hother h =>
      cases hall
      rw [hletter] at hother
      cases hother
      exact ⟨_, rfl, h⟩
    | unit _ _ _ => exact absurd (List.cons.inj (List.cons.inj hall).2).1 hunit
    | pair _ _ _ _ => exact absurd (List.cons.inj (List.cons.inj hall).2).1 hunit
  · rintro ⟨others, rfl, h⟩
    exact .letter hletter h

/-- A code that is no high surrogate stands for its character. -/
theorem characters_unit_iff {code : Nat} (hcode : Json.hexQuad? cs = some code)
    (hsingle : ¬(0xD800 ≤ code ∧ code < 0xDC00)) :
    Characters ('\\' :: 'u' :: cs) s rest ↔
      ∃ others, s = Json.charOfCode code :: others ∧ Characters (cs.drop 4) others rest := by
  constructor
  · intro h
    generalize hall : '\\' :: 'u' :: cs = all at h
    cases h with
    | close rest => simp at hall
    | plain _ _ hmark _ => exact absurd (List.cons.inj hall).1.symm hmark
    | letter hletter _ =>
      obtain ⟨rfl, _⟩ := List.cons.inj (List.cons.inj hall).2
      cases hletter
    | unit hother _ h =>
      cases hall
      rw [hcode] at hother
      cases hother
      exact ⟨_, rfl, h⟩
    | pair hhigh hrange _ _ =>
      cases hall
      rw [hcode] at hhigh
      cases hhigh
      exact absurd hrange hsingle
  · rintro ⟨others, rfl, h⟩
    exact .unit hcode (fun hpair => hsingle ⟨hpair.1, hpair.2.1⟩) h

/-- A high surrogate and a low one behind it stand for one character. -/
theorem characters_pair_iff {high low : Nat} (hhigh : Json.hexQuad? cs = some high)
    (hrange : 0xD800 ≤ high ∧ high < 0xDC00) (hlow : lowUnit? (cs.drop 4) = some low) :
    Characters ('\\' :: 'u' :: cs) s rest ↔ ∃ others,
      s = Char.ofNat (0x10000 + (high - 0xD800) * 0x400 + (low - 0xDC00)) :: others ∧
        Characters (cs.drop 10) others rest := by
  constructor
  · intro h
    generalize hall : '\\' :: 'u' :: cs = all at h
    cases h with
    | close rest => simp at hall
    | plain _ _ hmark _ => exact absurd (List.cons.inj hall).1.symm hmark
    | letter hletter _ =>
      obtain ⟨rfl, _⟩ := List.cons.inj (List.cons.inj hall).2
      cases hletter
    | unit hother hsingle _ =>
      cases hall
      rw [hhigh] at hother
      cases hother
      rw [hlow] at hsingle
      exact absurd ⟨hrange.1, hrange.2, rfl⟩ hsingle
    | pair hother _ hotherLow h =>
      cases hall
      rw [hhigh] at hother
      rw [hlow] at hotherLow
      cases hother
      cases hotherLow
      exact ⟨_, rfl, h⟩
  · rintro ⟨others, rfl, h⟩
    exact .pair hhigh hrange hlow h

/-- A character is written so that it is read again. -/
theorem characters_codeEscape_iff (c : Char) :
    Characters (Json.codeEscape c.toNat ++ cs) s rest ↔
      ∃ others, s = c :: others ∧ Characters cs others rest := by
  have hvalid : c.toNat < 0xD800 ∨ (0xDFFF < c.toNat ∧ c.toNat < 0x110000) := c.valid
  unfold Json.codeEscape
  by_cases hsmall : c.toNat < 0x10000
  · obtain ⟨hcode, hbehind⟩ := hexQuad?_padded hsmall cs
    have hchar : Json.charOfCode c.toNat = c := by
      rw [Json.charOfCode, if_neg (by omega), Char.ofNat_toNat]
    rw [if_pos hsmall, Json.unitEscape, List.cons_append, List.cons_append,
      characters_unit_iff hcode (by omega), hchar, hbehind]
  · obtain ⟨unit, hunit⟩ : ∃ unit, c.toNat = 0x10000 + unit := ⟨c.toNat - 0x10000, by omega⟩
    have hhighSmall : 0xD800 + unit / 0x400 < 0x10000 := by omega
    have hlowSmall : 0xDC00 + unit % 0x400 < 0x10000 := by omega
    obtain ⟨hlow, hend⟩ := hexQuad?_padded hlowSmall cs
    obtain ⟨hhigh, hbehind⟩ := hexQuad?_padded hhighSmall
      ('\\' :: 'u' :: (Hexadecimal.padded 4 (0xDC00 + unit % 0x400) ++ cs))
    have hlowUnit : lowUnit? ((Hexadecimal.padded 4 (0xD800 + unit / 0x400) ++
        '\\' :: 'u' :: (Hexadecimal.padded 4 (0xDC00 + unit % 0x400) ++ cs)).drop 4) =
          some (0xDC00 + unit % 0x400) := by
      rw [hbehind, lowUnit?, hlow, Option.filter_some, if_pos]
      simp only [Bool.and_eq_true, decide_eq_true_eq]
      omega
    have hrest : (Hexadecimal.padded 4 (0xD800 + unit / 0x400) ++
        '\\' :: 'u' :: (Hexadecimal.padded 4 (0xDC00 + unit % 0x400) ++ cs)).drop 10 = cs := by
      rw [← List.drop_drop (i := 6) (j := 4), hbehind, List.drop_succ_cons, List.drop_succ_cons,
        hend]
    have hcode : 0x10000 + (0xD800 + unit / 0x400 - 0xD800) * 0x400 +
        (0xDC00 + unit % 0x400 - 0xDC00) = c.toNat := by omega
    rw [if_neg hsmall, hunit, Nat.add_sub_cancel_left]
    dsimp only [Json.unitEscape]
    rw [List.append_assoc, List.cons_append, List.cons_append, List.cons_append, List.cons_append,
      characters_pair_iff hhigh (by omega) hlowUnit, hcode, Char.ofNat_toNat, hrest]

/-- Every character of a text is written so that it is read again. -/
theorem characters_escape_iff (c : Char) :
    Characters (Json.escapeCharacter true c ++ cs) s rest ↔
      ∃ others, s = c :: others ∧ Characters cs others rest := by
  by_cases hspecial : c ∈ ['"', '\\', '\n', '\r', '\t', '\x08', '\x0c']
  · have hletter : ∃ letter, Json.escapeCharacter true c = ['\\', letter] ∧
        Json.simpleEscape? letter = some c := by
      simp only [List.mem_cons, List.not_mem_nil, or_false] at hspecial
      rcases hspecial with rfl | rfl | rfl | rfl | rfl | rfl | rfl <;> exact ⟨_, rfl, rfl⟩
    obtain ⟨letter, hescape, hletter⟩ := hletter
    rw [hescape]
    exact characters_letter_iff hletter
  · simp only [List.mem_cons, List.not_mem_nil, or_false, not_or] at hspecial
    obtain ⟨hquote, hmark, hline, hreturn, htab, hback, hfeed⟩ := hspecial
    unfold Json.escapeCharacter
    rw [if_neg hquote, if_neg hmark, if_neg hline, if_neg hreturn, if_neg htab, if_neg hback,
      if_neg hfeed]
    by_cases hcontrol : c.toNat < 32
    · have hunit : Json.unitEscape c.toNat = Json.codeEscape c.toNat := by
        rw [Json.codeEscape, if_pos (by omega)]
      rw [if_pos hcontrol, hunit]
      exact characters_codeEscape_iff c
    · rw [if_neg hcontrol]
      split
      · exact characters_codeEscape_iff c
      · exact characters_plain_iff (by omega) hquote hmark

/-- A text is written so that it is read again, up to the quote behind it. -/
theorem characters_text_iff {text : List Char} :
    Characters (text.flatMap (Json.escapeCharacter true) ++ '"' :: cs) s rest ↔
      s = text ∧ rest = cs := by
  induction text generalizing s with
  | nil => exact characters_quote_iff
  | cons c text ih =>
    rw [List.flatMap_cons, List.append_assoc, characters_escape_iff]
    constructor
    · rintro ⟨others, rfl, h⟩
      obtain ⟨rfl, rfl⟩ := ih.mp h
      exact ⟨rfl, rfl⟩
    · rintro ⟨rfl, rfl⟩
      exact ⟨text, rfl, ih.mpr ⟨rfl, rfl⟩⟩

/-- The characters of a text that is written. -/
theorem toList_writeText (s : String) : (Json.writeText true s).toList =
    '"' :: (s.toList.flatMap (Json.escapeCharacter true) ++ ['"']) := by
  rw [Json.writeText, String.toList_ofList, List.cons_append]

end JsonGrammar

end HttpContract
