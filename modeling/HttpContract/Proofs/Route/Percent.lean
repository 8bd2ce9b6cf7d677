import Mathlib.Data.List.SplitBy
import HttpContract.Route.Query
import HttpContract.Proofs.Utf8

/-!
# Percent encoding

A text is encoded by writing every character but letters, digits and four marks with the bytes of
its UTF-8 form, each as a percent sign and two digits. Decoding gives the text back, and also the
texts of a list that were encoded one by one.
-/

namespace HttpContract

namespace Percent

/-- A hexadecimal digit, in upper case. -/
def digit (n : Nat) : Char := if n < 10 then Char.ofNat (48 + n) else Char.ofNat (55 + n)

/-- A byte, written with a percent sign and two digits. -/
def escape (b : UInt8) : List Char := ['%', digit (b.toNat / 16), digit (b.toNat % 16)]

/-- Whether a character stands for itself: a letter, a digit or one of four marks. -/
def isUnreserved (c : Char) : Bool := c.isAlphanum || "-._~".toList.contains c

/-- A character as it stands in an encoded text. -/
def encodeChar (c : Char) : List Char :=
  if isUnreserved c then [c] else (String.utf8EncodeChar c).flatMap escape

/-- A text with every character encoded but letters, digits and four marks. -/
def encode (s : String) : String := String.ofList (s.toList.flatMap encodeChar)

/-- A digit is read as its number. -/
theorem value?_digit {n : Nat} (h : n < 16) : Hexadecimal.value? (digit n) = some n := by
  revert h
  revert n
  decide

/-- A byte that is written with digits is read again. -/
theorem bytesOf_escape (b : UInt8) (rest : List Char) :
    bytesOf (escape b ++ rest) = b :: bytesOf rest := by
  have hb := b.toNat_lt
  have hmake : UInt8.ofNat (16 * (b.toNat / 16) + b.toNat % 16) = b := by
    rw [Nat.div_add_mod, UInt8.ofNat_toNat]
  unfold escape
  rw [List.cons_append, List.cons_append, List.cons_append, List.nil_append, bytesOf,
    value?_digit (by omega), value?_digit (by omega)]
  dsimp only
  rw [hmake]

/-- A character other than a percent sign is a byte of its own. -/
theorem bytesOf_cons {c : Char} (hc : c ≠ '%') (rest : List Char) :
    bytesOf (c :: rest) = UInt8.ofNat c.toNat :: bytesOf rest := by
  rw [bytesOf]
  rintro _ _ _ rfl
  exact absurd rfl hc

/-- Bytes that are written with digits are read again. -/
theorem bytesOf_flatMap_escape (bytes : List UInt8) (rest : List Char) :
    bytesOf (bytes.flatMap escape ++ rest) = bytes ++ bytesOf rest := by
  induction bytes with
  | nil => rfl
  | cons b bytes ih =>
    rw [List.flatMap_cons, List.append_assoc, bytesOf_escape, ih, List.cons_append]

/-- A character between two others has a code between theirs. -/
theorem toNat_of_between {c first last : Char} (h : first.val ≤ c.val ∧ c.val ≤ last.val) :
    first.toNat ≤ c.toNat ∧ c.toNat ≤ last.toNat :=
  h.imp UInt32.le_iff_toNat_le.mp UInt32.le_iff_toNat_le.mp

/-- A letter or a digit has a code of ASCII, behind the marks. -/
theorem toNat_of_isAlphanum {c : Char} (h : c.isAlphanum = true) :
    48 ≤ c.toNat ∧ c.toNat < 128 := by
  rcases Bool.or_eq_true_iff.mp h with hletter | hdigit
  · rcases Bool.or_eq_true_iff.mp hletter with hupper | hlower
    · have hbounds : 65 ≤ c.toNat ∧ c.toNat ≤ 90 := toNat_of_between (of_decide_eq_true hupper)
      omega
    · have hbounds : 97 ≤ c.toNat ∧ c.toNat ≤ 122 := toNat_of_between
        ((Bool.and_eq_true_iff.mp hlower).imp of_decide_eq_true of_decide_eq_true)
      omega
  · have hbounds : 48 ≤ c.toNat ∧ c.toNat ≤ 57 := toNat_of_between
      ((Bool.and_eq_true_iff.mp hdigit).imp of_decide_eq_true of_decide_eq_true)
    omega

/-- A character that stands for itself is one of ASCII, and no percent sign. -/
theorem of_isUnreserved {c : Char} (h : isUnreserved c = true) : isAscii c = true ∧ c ≠ '%' := by
  have hrange : c.toNat < 128 ∧ c.toNat ≠ 37 := by
    rcases Bool.or_eq_true_iff.mp h with halphanum | hmark
    · have hbounds := toNat_of_isAlphanum halphanum
      omega
    · have hmark : c = '-' ∨ c = '.' ∨ c = '_' ∨ c = '~' := by simpa using hmark
      rcases hmark with rfl | rfl | rfl | rfl <;> decide
  refine ⟨decide_eq_true hrange.1, ?_⟩
  rintro rfl
  exact hrange.2 rfl

/-- A character of ASCII has one byte. -/
theorem utf8EncodeChar_append {c : Char} (h : isAscii c = true) (rest : List UInt8) :
    String.utf8EncodeChar c ++ rest = UInt8.ofNat c.toNat :: rest := by
  have hsmall : c.val.toNat ≤ 127 := Nat.le_of_lt_succ (of_decide_eq_true h)
  unfold String.utf8EncodeChar
  rw [if_pos hsmall]
  rfl

/-- The bytes of an encoded character are those of the character. -/
theorem bytesOf_encodeChar (c : Char) (rest : List Char) :
    bytesOf (encodeChar c ++ rest) = String.utf8EncodeChar c ++ bytesOf rest := by
  unfold encodeChar
  split
  · rename_i h
    obtain ⟨hascii, hne⟩ := of_isUnreserved h
    rw [utf8EncodeChar_append hascii]
    exact bytesOf_cons hne rest
  · exact bytesOf_flatMap_escape _ rest

/-- The bytes of encoded characters are those of the characters. -/
theorem bytesOf_flatMap_encodeChar (cs rest : List Char) :
    bytesOf (cs.flatMap encodeChar ++ rest) =
      cs.flatMap String.utf8EncodeChar ++ bytesOf rest := by
  induction cs with
  | nil => rfl
  | cons c cs ih =>
    rw [List.flatMap_cons, List.flatMap_cons, List.append_assoc, bytesOf_encodeChar, ih,
      List.append_assoc]

/-- What encoded characters are made of. -/
theorem mem_encodeChar {c d : Char} (h : d ∈ encodeChar c) : isUnreserved d = true ∨ d = '%' := by
  unfold encodeChar at h
  split at h
  · rename_i hc
    rw [List.mem_singleton] at h
    exact Or.inl (h ▸ hc)
  · obtain ⟨b, _, hb⟩ := List.mem_flatMap.mp h
    have hlt := b.toNat_lt
    have hdigit : ∀ n < 16, isUnreserved (digit n) = true := by decide
    simp only [escape, List.mem_cons, List.not_mem_nil, or_false] at hb
    rcases hb with rfl | rfl | rfl
    · exact Or.inr rfl
    · exact Or.inl (hdigit _ (by omega))
    · exact Or.inl (hdigit _ (by omega))

/-- An encoded character is never empty. -/
theorem encodeChar_ne_nil (c : Char) : encodeChar c ≠ [] := by
  unfold encodeChar
  split
  · exact List.cons_ne_nil c []
  · obtain ⟨lead, tail, hencode, _⟩ := Utf8.front_utf8EncodeChar c []
    rw [hencode]
    exact List.cons_ne_nil _ _

/-- What encoded texts are made of. -/
theorem mem_encode {d : Char} {s : String} (h : d ∈ (encode s).toList) :
    isUnreserved d = true ∨ d = '%' := by
  rw [encode, String.toList_ofList] at h
  obtain ⟨_, _, hc⟩ := List.mem_flatMap.mp h
  exact mem_encodeChar hc

/-- An encoded text has no slash. -/
theorem slash_notMem_encode (s : String) : '/' ∉ (encode s).toList := by
  intro h
  rcases mem_encode h with h | h
  · exact absurd h (by decide)
  · exact absurd h (by decide)

/-- Only the empty text is encoded as the empty text. -/
theorem toList_encode_ne_nil {s : String} (h : s ≠ "") : (encode s).toList ≠ [] := by
  have hs : s.toList ≠ [] := fun he => h (String.toList_inj.mp he)
  obtain ⟨c, cs, hcs⟩ := List.exists_cons_of_ne_nil hs
  rw [encode, String.toList_ofList, hcs, List.flatMap_cons]
  exact List.append_ne_nil_of_left_ne_nil (encodeChar_ne_nil c) _

/-- A text of ASCII stands for what its bytes do. -/
theorem decode_of_ascii {cs : List Char} (h : ∀ c ∈ cs, isAscii c = true) :
    decode (String.ofList cs) = String.ofList (Utf8.decodeLenient 0 (bytesOf cs)) := by
  unfold decode
  rw [String.toList_ofList]
  cases cs with
  | nil => rfl
  | cons c rest =>
    have hchain : (c :: rest).IsChain fun a b => (isAscii a == isAscii b) = true := by
      refine List.Pairwise.isChain (List.pairwise_of_forall_mem_list fun a ha b hb => ?_)
      rw [h a ha, h b hb]
      rfl
    rw [stretches, List.splitBy_of_isChain (List.cons_ne_nil c rest) hchain, List.flatMap_singleton,
      decodeStretch, if_pos (List.all_eq_true.mpr h)]

/-- Texts that are encoded one by one, with a separator between them, as it stands in a path. -/
def encodeItems (separator : Char) (items : List String) : List Char :=
  [separator].intercalate (items.map fun item => (encode item).toList)

section Items

variable {separator : Char}

/-- One text has no separator. -/
theorem encodeItems_singleton (item : String) :
    encodeItems separator [item] = (encode item).toList := List.intercalate_singleton

/-- The first of several texts is followed by a separator. -/
theorem encodeItems_cons_cons (first second : String) (others : List String) :
    encodeItems separator (first :: second :: others) =
      (encode first).toList ++ separator :: encodeItems separator (second :: others) := by
  rw [encodeItems, List.map_cons, List.map_cons, List.intercalate_cons_cons, List.append_assoc]
  rfl

/-- What encoded texts with a separator between them are made of. -/
theorem mem_encodeItems {d : Char} {items : List String} (h : d ∈ encodeItems separator items) :
    d = separator ∨ isUnreserved d = true ∨ d = '%' := by
  induction items with
  | nil => exact absurd h List.not_mem_nil
  | cons first others ih =>
    cases others with
    | nil =>
      rw [encodeItems_singleton] at h
      exact Or.inr (mem_encode h)
    | cons second others =>
      rw [encodeItems_cons_cons, List.mem_append, List.mem_cons] at h
      rcases h with h | h | h
      · exact Or.inr (mem_encode h)
      · exact Or.inl h
      · exact ih h

/-- The bytes of encoded texts with a separator between them are those of the texts with it. -/
theorem bytesOf_encodeItems (hascii : isAscii separator = true) (hne : separator ≠ '%')
    (items : List String) :
    bytesOf (encodeItems separator items) =
      ([separator].intercalate (items.map String.toList)).flatMap String.utf8EncodeChar := by
  induction items with
  | nil => rfl
  | cons first others ih =>
    have hfirst (rest : List Char) : bytesOf ((encode first).toList ++ rest) =
        first.toList.flatMap String.utf8EncodeChar ++ bytesOf rest := by
      rw [encode, String.toList_ofList]
      exact bytesOf_flatMap_encodeChar first.toList rest
    cases others with
    | nil =>
      rw [encodeItems_singleton, List.map_singleton, List.intercalate_singleton]
      simpa only [bytesOf, List.append_nil] using hfirst []
    | cons second others =>
      rw [encodeItems_cons_cons, hfirst, bytesOf_cons hne, ih, ← utf8EncodeChar_append hascii,
        List.map_cons, List.map_cons, List.map_cons, List.intercalate_cons_cons, List.append_assoc,
        List.flatMap_append, List.singleton_append, List.flatMap_cons]

/-- Encoded texts with a separator between them stand for the texts with it. -/
theorem decode_encodeItems (hascii : isAscii separator = true) (hne : separator ≠ '%')
    (items : List String) :
    decode (String.ofList (encodeItems separator items)) =
      String.ofList ([separator].intercalate (items.map String.toList)) := by
  have hall : ∀ d ∈ encodeItems separator items, isAscii d = true := by
    intro d hd
    rcases mem_encodeItems hd with rfl | hd | rfl
    · exact hascii
    · exact (of_isUnreserved hd).1
    · rfl
  rw [decode_of_ascii hall, bytesOf_encodeItems hascii hne,
    Utf8.decodeLenient_flatMap_utf8EncodeChar]

end Items

/-- An encoded text stands for the text. -/
theorem decode_encode (s : String) : decode (encode s) = s := by
  have hone : decode (String.ofList (encodeItems ',' [s])) =
      String.ofList ([','].intercalate ([s].map String.toList)) :=
    decode_encodeItems rfl (by decide) [s]
  rwa [encodeItems_singleton, List.map_singleton, List.intercalate_singleton,
    String.ofList_toList, String.ofList_toList] at hone

end Percent

end HttpContract
