import HttpContract.Json.Reader

/-!
# The grammar of JSON

Which tree a text denotes by the grammar of JSON. Blanks may stand around every value and every
mark. The words for not a number and the infinities, which some readers take, are no part of it. An
object may name a member more than once, and every such member counts as one of its own.
-/

namespace HttpContract

/-- What a JSON text denotes: numbers as they are written, and the members of objects as they
stand. -/
inductive JsonTree where
  | null
  | bool (value : Bool)
  | number (token : String)
  | text (value : String)
  | array (items : List JsonTree)
  | object (members : List (String × JsonTree))

namespace JsonGrammar

/-- The blanks. -/
def IsBlank (c : Char) : Prop := c = ' ' ∨ c = '\t' ∨ c = '\n' ∨ c = '\r'

/-- A text behind any number of blanks. -/
def Blanks (cs rest : List Char) : Prop :=
  ∃ blanks, (∀ c ∈ blanks, IsBlank c) ∧ cs = blanks ++ rest

/-- At least one digit. -/
def IsDigits (ds : List Char) : Prop := ds ≠ [] ∧ ∀ d ∈ ds, d.isDigit = true

/-- The digits in front of the point: a zero, or digits that begin with another one. -/
inductive IsWhole : List Char → Prop
  | zero : IsWhole ['0']
  | digits {d : Char} {ds : List Char} (hd : d.isDigit = true) (hzero : d ≠ '0')
      (hds : ∀ d ∈ ds, d.isDigit = true) : IsWhole (d :: ds)

/-- Nothing, or a point with digits. -/
inductive IsFraction : List Char → Prop
  | none : IsFraction []
  | digits {ds : List Char} (hds : IsDigits ds) : IsFraction ('.' :: ds)

/-- Nothing, or a power of ten with or without a sign. -/
inductive IsPower : List Char → Prop
  | none : IsPower []
  | digits {e : Char} {sign ds : List Char} (he : e = 'e' ∨ e = 'E')
      (hsign : sign = [] ∨ sign = ['+'] ∨ sign = ['-']) (hds : IsDigits ds) :
      IsPower (e :: (sign ++ ds))

/-- A number without a sign. -/
inductive IsMagnitude : List Char → Prop
  | intro {whole fraction power : List Char} (hwhole : IsWhole whole)
      (hfraction : IsFraction fraction) (hpower : IsPower power) :
      IsMagnitude (whole ++ (fraction ++ power))

/-- A number. No sign but a minus may stand in front of it. -/
inductive IsNumber : List Char → Prop
  | plain {cs : List Char} (h : IsMagnitude cs) : IsNumber cs
  | minus {cs : List Char} (h : IsMagnitude cs) : IsNumber ('-' :: cs)

/-- The low surrogate that the escape at the front stands for. -/
def lowUnit? : List Char → Option Nat
  | '\\' :: 'u' :: cs => (Json.hexQuad? cs).filter fun code => 0xDC00 ≤ code && code < 0xE000
  | _ => none

/-- The characters of a string up to its closing quote. Two surrogates in a row stand for one
character, and one alone for the replacement character. -/
inductive Characters : List Char → List Char → List Char → Prop
  | close (rest : List Char) : Characters ('"' :: rest) [] rest
  | plain {c : Char} {cs s rest : List Char} (hcontrol : 32 ≤ c.toNat) (hquote : c ≠ '"')
      (hmark : c ≠ '\\') (h : Characters cs s rest) : Characters (c :: cs) (c :: s) rest
  | letter {letter c : Char} {cs s rest : List Char}
      (hletter : Json.simpleEscape? letter = some c) (h : Characters cs s rest) :
      Characters ('\\' :: letter :: cs) (c :: s) rest
  | unit {code : Nat} {cs s rest : List Char} (hcode : Json.hexQuad? cs = some code)
      (hsingle : ¬(0xD800 ≤ code ∧ code < 0xDC00 ∧ (lowUnit? (cs.drop 4)).isSome = true))
      (h : Characters (cs.drop 4) s rest) :
      Characters ('\\' :: 'u' :: cs) (Json.charOfCode code :: s) rest
  | pair {high low : Nat} {cs s rest : List Char} (hhigh : Json.hexQuad? cs = some high)
      (hrange : 0xD800 ≤ high ∧ high < 0xDC00) (hlow : lowUnit? (cs.drop 4) = some low)
      (h : Characters (cs.drop 10) s rest) :
      Characters ('\\' :: 'u' :: cs)
        (Char.ofNat (0x10000 + (high - 0xD800) * 0x400 + (low - 0xDC00)) :: s) rest

/-- Things with commas between them, and the mark that closes them. -/
inductive Separated {α : Type} (P : List Char → α → List Char → Prop) (close : Char) :
    List Char → List α → List Char → Prop
  | last {cs behind rest : List Char} {a : α} (h : P cs a behind)
      (hclose : Blanks behind (close :: rest)) : Separated P close cs [a] rest
  | cons {cs behind more next rest : List Char} {a : α} {as : List α} (h : P cs a behind)
      (hcomma : Blanks behind (',' :: more)) (hblanks : Blanks more next)
      (hrest : Separated P close next as rest) : Separated P close cs (a :: as) rest

/-- A member: a string, a colon, and what the name stands for. -/
inductive Named (P : List Char → JsonTree → List Char → Prop) :
    List Char → String × JsonTree → List Char → Prop
  | intro {cs s afterName afterColon front rest : List Char} {t : JsonTree}
      (hname : Characters cs s afterName) (hcolon : Blanks afterName (':' :: afterColon))
      (hblanks : Blanks afterColon front) (hvalue : P front t rest) :
      Named P ('"' :: cs) (String.ofList s, t) rest

/-- The tree of the value that a text begins with, and the text behind it. -/
inductive Denotes : List Char → JsonTree → List Char → Prop
  | null (rest : List Char) : Denotes ('n' :: 'u' :: 'l' :: 'l' :: rest) .null rest
  | true (rest : List Char) : Denotes ('t' :: 'r' :: 'u' :: 'e' :: rest) (.bool true) rest
  | false (rest : List Char) : Denotes ('f' :: 'a' :: 'l' :: 's' :: 'e' :: rest) (.bool false) rest
  | number {token : List Char} (rest : List Char) (h : IsNumber token) :
      Denotes (token ++ rest) (.number (String.ofList token)) rest
  | text {cs s rest : List Char} (h : Characters cs s rest) :
      Denotes ('"' :: cs) (.text (String.ofList s)) rest
  | emptyArray {cs rest : List Char} (h : Blanks cs (']' :: rest)) :
      Denotes ('[' :: cs) (.array []) rest
  | array {cs front rest : List Char} {items : List JsonTree} (hblanks : Blanks cs front)
      (h : Separated Denotes ']' front items rest) : Denotes ('[' :: cs) (.array items) rest
  | emptyObject {cs rest : List Char} (h : Blanks cs ('\x7d' :: rest)) :
      Denotes ('\x7b' :: cs) (.object []) rest
  | object {cs front rest : List Char} {members : List (String × JsonTree)}
      (hblanks : Blanks cs front) (h : Separated (Named Denotes) '\x7d' front members rest) :
      Denotes ('\x7b' :: cs) (.object members) rest

/-- The tree of a whole text. -/
def IsText (cs : List Char) (t : JsonTree) : Prop :=
  ∃ front behind, Blanks cs front ∧ Denotes front t behind ∧ Blanks behind []

/-! ### What stands at the front -/

/-- The characters that numbers are written with. -/
def IsNumeral (c : Char) : Prop := c.isDigit = true ∨ c ∈ ['-', '+', '.', 'e', 'E']

/-- A text that continues no number. -/
def Apart (rest : List Char) : Prop := ∀ c ∈ rest.head?, ¬IsNumeral c

/-- The characters that no value begins with: blanks, and the marks that close. -/
def IsGap (c : Char) : Prop := IsBlank c ∨ c = ']' ∨ c = '\x7d'

/-- A text that begins as values do, neither with a blank nor with a mark that closes. -/
def Solid (cs : List Char) : Prop := ∃ c rest, cs = c :: rest ∧ ¬IsGap c

variable {cs rest token : List Char} {c : Char} {t : JsonTree}

/-- What a text begins with tells whether it is solid. -/
theorem solid_cons_iff : Solid (c :: cs) ↔ ¬IsGap c := by
  constructor
  · rintro ⟨d, rest, heq, hd⟩
    rwa [(List.cons.inj heq).1]
  · exact fun hc => ⟨c, cs, rfl, hc⟩

/-- Where there is no blank at the front there is none to be skipped. -/
theorem blanks_iff_of_not_blank (hc : ¬IsBlank c) : Blanks (c :: cs) rest ↔ rest = c :: cs := by
  constructor
  · rintro ⟨blanks, hblanks, heq⟩
    cases blanks with
    | nil => exact heq.symm
    | cons b blanks =>
      obtain ⟨rfl, _⟩ := List.cons.inj heq
      exact absurd (hblanks c List.mem_cons_self) hc
  · rintro rfl
    exact ⟨[], by simp, rfl⟩

/-- Where no blank stands in front of a solid text, this text is found behind blanks. -/
theorem Solid.blanks_iff (h : Solid cs) : Blanks cs rest ↔ rest = cs := by
  obtain ⟨c, cs, rfl, hc⟩ := h
  exact blanks_iff_of_not_blank fun hblank => hc (Or.inl hblank)

/-- Behind one blank a solid text is found as it is without. -/
theorem blanks_blank_iff (hcs : Solid cs) (hrest : Solid rest) :
    Blanks (' ' :: cs) rest ↔ rest = cs := by
  obtain ⟨c, rest, rfl, hc⟩ := hrest
  constructor
  · rintro ⟨blanks, hblanks, heq⟩
    cases blanks with
    | nil =>
      obtain ⟨rfl, _⟩ := List.cons.inj heq
      exact absurd (Or.inl (Or.inl rfl)) hc
    | cons b blanks =>
      obtain ⟨_, heq⟩ := List.cons.inj heq
      exact hcs.blanks_iff.mp ⟨blanks, fun x hx => hblanks x (List.mem_cons_of_mem _ hx), heq⟩
  · rintro rfl
    exact ⟨[' '], by simp [IsBlank], rfl⟩

/-- A mark that is no numeral, behind any blanks, continues no number. -/
theorem Apart.of_blanks (h : Blanks cs (c :: rest)) (hc : ¬IsNumeral c) : Apart cs := by
  obtain ⟨blanks, hblanks, rfl⟩ := h
  cases blanks with
  | nil => simpa [Apart] using hc
  | cons b blanks =>
    have hb : IsBlank b := hblanks b List.mem_cons_self
    have hnot : ¬IsNumeral b := by
      rcases hb with rfl | rfl | rfl | rfl <;> simp [IsNumeral]
    simpa [Apart] using hnot

/-- The end of a text, behind any blanks, continues no number. -/
theorem Apart.of_blanks_nil (h : Blanks cs []) : Apart cs := by
  obtain ⟨blanks, hblanks, rfl⟩ := h
  intro c hc
  rw [List.append_nil] at hc
  have hb : IsBlank c := hblanks c (List.mem_of_mem_head? hc)
  rcases hb with rfl | rfl | rfl | rfl <;> simp [IsNumeral]

/-! ### Numbers -/

/-- The digits in front of the point begin with a digit. -/
theorem IsWhole.front (h : IsWhole cs) : ∃ d ds, cs = d :: ds ∧ d.isDigit = true := by
  cases h with
  | zero => exact ⟨_, _, rfl, rfl⟩
  | digits hd _ _ => exact ⟨_, _, rfl, hd⟩

/-- A number without a sign begins with a digit. -/
theorem IsMagnitude.front (h : IsMagnitude cs) : ∃ d ds, cs = d :: ds ∧ d.isDigit = true := by
  obtain ⟨hwhole, _, _⟩ := h
  obtain ⟨d, ds, rfl, hd⟩ := hwhole.front
  exact ⟨d, _, rfl, hd⟩

/-- A number begins with a minus or a digit. -/
theorem IsNumber.front (h : IsNumber token) :
    ∃ c cs, token = c :: cs ∧ (c = '-' ∨ c.isDigit = true) := by
  cases h with
  | plain h =>
    obtain ⟨d, ds, rfl, hd⟩ := h.front
    exact ⟨d, ds, rfl, Or.inr hd⟩
  | minus _ => exact ⟨'-', _, rfl, Or.inl rfl⟩

/-- A text that begins with anything else begins with no number. -/
theorem IsNumber.append_ne (h : IsNumber token) (hminus : c ≠ '-') (hdigit : c.isDigit = false) :
    c :: cs ≠ token ++ rest := by
  obtain ⟨d, ds, rfl, rfl | hd⟩ := h.front
  · exact fun heq => hminus (List.cons.inj heq).1
  · intro heq
    rw [(List.cons.inj heq).1, hd] at hdigit
    cases hdigit

/-- The digits in front of the point are digits. -/
theorem IsWhole.isNumeral (h : IsWhole cs) : ∀ c ∈ cs, IsNumeral c := by
  cases h with
  | zero => simp [IsNumeral]
  | digits hd _ hds => exact List.forall_mem_cons.mpr ⟨Or.inl hd, fun c hc => Or.inl (hds c hc)⟩

/-- A fraction is written with numerals. -/
theorem IsFraction.isNumeral (h : IsFraction cs) : ∀ c ∈ cs, IsNumeral c := by
  cases h with
  | none => simp
  | digits hds =>
    exact List.forall_mem_cons.mpr ⟨by simp [IsNumeral], fun c hc => Or.inl (hds.2 c hc)⟩

/-- A power of ten is written with numerals. -/
theorem IsPower.isNumeral (h : IsPower cs) : ∀ c ∈ cs, IsNumeral c := by
  cases h with
  | none => simp
  | @digits e sign ds he hsign hds =>
    have hmark : IsNumeral e := by
      rcases he with rfl | rfl <;> simp [IsNumeral]
    have hsigns : ∀ c ∈ sign, IsNumeral c := by
      rcases hsign with rfl | rfl | rfl <;> simp [IsNumeral]
    refine List.forall_mem_cons.mpr ⟨hmark, fun c hc => ?_⟩
    rcases List.mem_append.mp hc with hc | hc
    · exact hsigns c hc
    · exact Or.inl (hds.2 c hc)

/-- A number without a sign is written with numerals. -/
theorem IsMagnitude.isNumeral (h : IsMagnitude cs) : ∀ c ∈ cs, IsNumeral c := by
  obtain ⟨hwhole, hfraction, hpower⟩ := h
  intro c hc
  rcases List.mem_append.mp hc with hc | hc
  · exact hwhole.isNumeral c hc
  · rcases List.mem_append.mp hc with hc | hc
    · exact hfraction.isNumeral c hc
    · exact hpower.isNumeral c hc

/-- A number is written with numerals. -/
theorem IsNumber.isNumeral (h : IsNumber token) : ∀ c ∈ token, IsNumeral c := by
  cases h with
  | plain h => exact h.isNumeral
  | minus h => exact List.forall_mem_cons.mpr ⟨by simp [IsNumeral], h.isNumeral⟩

/-- Numerals with nothing behind them that continues a number are told from what is behind them. -/
theorem append_inj_of_apart {token' rest' : List Char} (htoken : ∀ c ∈ token, IsNumeral c)
    (htoken' : ∀ c ∈ token', IsNumeral c) (hrest : Apart rest) (hrest' : Apart rest')
    (h : token ++ rest = token' ++ rest') : token = token' ∧ rest = rest' := by
  induction token generalizing token' with
  | nil =>
    cases token' with
    | nil => exact ⟨rfl, h⟩
    | cons c cs =>
      rw [List.nil_append] at h
      rw [h] at hrest
      exact absurd (htoken' c List.mem_cons_self) (hrest c rfl)
  | cons d ds ih =>
    cases token' with
    | nil =>
      rw [List.nil_append] at h
      rw [← h] at hrest'
      exact absurd (htoken d List.mem_cons_self) (hrest' d rfl)
    | cons c cs =>
      obtain ⟨rfl, hbehind⟩ := List.cons.inj h
      obtain ⟨rfl, hrest⟩ := ih (fun x hx => htoken x (List.mem_cons_of_mem _ hx))
        (fun x hx => htoken' x (List.mem_cons_of_mem _ hx)) hbehind
      exact ⟨rfl, hrest⟩

/-! ### Values by what stands at their front -/

/-- What begins like the null value denotes it. -/
theorem denotes_null_iff :
    Denotes ('n' :: 'u' :: 'l' :: 'l' :: cs) t rest ↔ t = .null ∧ rest = cs := by
  constructor
  · intro h
    generalize hall : 'n' :: 'u' :: 'l' :: 'l' :: cs = all at h
    cases h with
    | null rest =>
      cases hall
      exact ⟨rfl, rfl⟩
    | number rest h => exact absurd hall (h.append_ne (by decide) (by decide))
    | _ => simp at hall
  · rintro ⟨rfl, rfl⟩
    exact .null _

/-- What begins like the true value denotes it. -/
theorem denotes_true_iff :
    Denotes ('t' :: 'r' :: 'u' :: 'e' :: cs) t rest ↔ t = .bool true ∧ rest = cs := by
  constructor
  · intro h
    generalize hall : 't' :: 'r' :: 'u' :: 'e' :: cs = all at h
    cases h with
    | true rest =>
      cases hall
      exact ⟨rfl, rfl⟩
    | number rest h => exact absurd hall (h.append_ne (by decide) (by decide))
    | _ => simp at hall
  · rintro ⟨rfl, rfl⟩
    exact .true _

/-- What begins like the false value denotes it. -/
theorem denotes_false_iff :
    Denotes ('f' :: 'a' :: 'l' :: 's' :: 'e' :: cs) t rest ↔ t = .bool false ∧ rest = cs := by
  constructor
  · intro h
    generalize hall : 'f' :: 'a' :: 'l' :: 's' :: 'e' :: cs = all at h
    cases h with
    | false rest =>
      cases hall
      exact ⟨rfl, rfl⟩
    | number rest h => exact absurd hall (h.append_ne (by decide) (by decide))
    | _ => simp at hall
  · rintro ⟨rfl, rfl⟩
    exact .false _

/-- What begins with a quote is a text. -/
theorem denotes_quote_iff :
    Denotes ('"' :: cs) t rest ↔ ∃ s, Characters cs s rest ∧ t = .text (String.ofList s) := by
  constructor
  · intro h
    generalize hall : '"' :: cs = all at h
    cases h with
    | text h =>
      cases hall
      exact ⟨_, h, rfl⟩
    | number rest h => exact absurd hall (h.append_ne (by decide) (by decide))
    | _ => simp at hall
  · rintro ⟨s, h, rfl⟩
    exact .text h

/-- What stands between two marks, of which the first one was read: nothing, or things with commas
between them. -/
def Enclosed {α : Type} (P : List Char → α → List Char → Prop) (close : Char) (cs : List Char)
    (as : List α) (rest : List Char) : Prop :=
  (as = [] ∧ Blanks cs (close :: rest)) ∨
    ∃ front, Blanks cs front ∧ Separated P close front as rest

/-- What begins with a bracket is an array. -/
theorem denotes_bracket_iff : Denotes ('[' :: cs) t rest ↔
    ∃ items, Enclosed Denotes ']' cs items rest ∧ t = .array items := by
  constructor
  · intro h
    generalize hall : '[' :: cs = all at h
    cases h with
    | emptyArray h =>
      cases hall
      exact ⟨[], Or.inl ⟨rfl, h⟩, rfl⟩
    | array hblanks h =>
      cases hall
      exact ⟨_, Or.inr ⟨_, hblanks, h⟩, rfl⟩
    | number rest h => exact absurd hall (h.append_ne (by decide) (by decide))
    | _ => simp at hall
  · rintro ⟨items, ⟨rfl, h⟩ | ⟨front, hblanks, h⟩, rfl⟩
    · exact .emptyArray h
    · exact .array hblanks h

/-- What begins with a brace is an object. -/
theorem denotes_brace_iff : Denotes ('\x7b' :: cs) t rest ↔
    ∃ members, Enclosed (Named Denotes) '\x7d' cs members rest ∧ t = .object members := by
  constructor
  · intro h
    generalize hall : '\x7b' :: cs = all at h
    cases h with
    | emptyObject h =>
      cases hall
      exact ⟨[], Or.inl ⟨rfl, h⟩, rfl⟩
    | object hblanks h =>
      cases hall
      exact ⟨_, Or.inr ⟨_, hblanks, h⟩, rfl⟩
    | number rest h => exact absurd hall (h.append_ne (by decide) (by decide))
    | _ => simp at hall
  · rintro ⟨members, ⟨rfl, h⟩ | ⟨front, hblanks, h⟩, rfl⟩
    · exact .emptyObject h
    · exact .object hblanks h

/-- What begins with a minus or a digit is a number. -/
theorem exists_number_of_denotes (h : Denotes (c :: cs) t rest)
    (hc : c = '-' ∨ c.isDigit = true) :
    ∃ token, IsNumber token ∧ c :: cs = token ++ rest ∧ t = .number (String.ofList token) := by
  generalize hall : c :: cs = all at h
  cases h with
  | number rest h => exact ⟨_, h, rfl, rfl⟩
  | _ =>
    obtain ⟨rfl, _⟩ := List.cons.inj hall
    simp at hc

/-- A number is told from what is behind it. -/
theorem denotes_number_iff (h : IsNumber token) {behind : List Char} (hbehind : Apart behind)
    (hrest : Apart rest) :
    Denotes (token ++ behind) t rest ↔ t = .number (String.ofList token) ∧ rest = behind := by
  constructor
  · intro hdenotes
    obtain ⟨c, cs, rfl, hc⟩ := h.front
    obtain ⟨token', htoken', heq, rfl⟩ := exists_number_of_denotes hdenotes hc
    obtain ⟨rfl, rfl⟩ := append_inj_of_apart h.isNumeral htoken'.isNumeral hbehind hrest heq
    exact ⟨rfl, rfl⟩
  · rintro ⟨rfl, rfl⟩
    exact .number _ h

/-- No value begins with a blank. -/
theorem Denotes.solid (h : Denotes cs t rest) : Solid cs := by
  cases h with
  | number rest h =>
    obtain ⟨c, cs, rfl, hc⟩ := h.front
    refine solid_cons_iff.mpr ?_
    rintro ((rfl | rfl | rfl | rfl) | rfl | rfl) <;> simp at hc
  | _ => exact solid_cons_iff.mpr (by simp [IsGap, IsBlank])

/-- A member begins with the quote of its name. -/
theorem Named.solid {m : String × JsonTree} (h : Named Denotes cs m rest) : Solid cs := by
  cases h with
  | intro _ _ _ _ => exact solid_cons_iff.mpr (by simp [IsGap, IsBlank])

/-- Only marks and words of values stand at their front. -/
theorem not_denotes (hc : c ∉ ['n', 't', 'f', '"', '[', '\x7b', '-']) (hdigit : c.isDigit = false) :
    ¬Denotes (c :: cs) t rest := by
  intro h
  generalize hall : c :: cs = all at h
  cases h with
  | number rest h =>
    refine h.append_ne (fun heq => hc ?_) hdigit hall
    simp [heq]
  | _ =>
    obtain ⟨rfl, _⟩ := List.cons.inj hall
    simp at hc

/-- Behind a minus nothing but a digit stands. -/
theorem not_denotes_minus (hdigit : c.isDigit = false) : ¬Denotes ('-' :: c :: cs) t rest := by
  intro h
  obtain ⟨token, htoken, heq, _⟩ := exists_number_of_denotes h (Or.inl rfl)
  have hdigits : ∃ d ds, token = d :: ds ∧ d.isDigit = true ∨ token = '-' :: d :: ds ∧
      d.isDigit = true := by
    cases htoken with
    | plain h =>
      obtain ⟨d, ds, rfl, hd⟩ := h.front
      exact ⟨d, ds, Or.inl ⟨rfl, hd⟩⟩
    | minus h =>
      obtain ⟨d, ds, rfl, hd⟩ := h.front
      exact ⟨d, ds, Or.inr ⟨rfl, hd⟩⟩
  obtain ⟨d, ds, ⟨rfl, hd⟩ | ⟨rfl, hd⟩⟩ := hdigits
  · rw [← (List.cons.inj heq).1] at hd
    cases hd
  · rw [← (List.cons.inj (List.cons.inj heq).2).1, hdigit] at hd
    cases hd

/-! ### Things with commas between them -/

section Separated

variable {α β : Type} {P : List Char → α → List Char → Prop} {close : Char} {as : List α}
  {behind : List Char}

/-- The last of several things is told by the mark behind it. -/
theorem separated_close_iff {write : List Char} {a : α} {Good : Prop} (hclose : ¬IsBlank close)
    (hapart : ¬IsNumeral close) (hcomma : close ≠ ',')
    (htold : ∀ behind a' rest, Apart behind → Apart rest →
      (P (write ++ behind) a' rest ↔ Good ∧ a' = a ∧ rest = behind)) :
    Separated P close (write ++ close :: behind) as rest ↔ Good ∧ as = [a] ∧ rest = behind := by
  have hclosing : Apart (close :: behind) := by simpa [Apart] using hapart
  constructor
  · intro h
    cases h with
    | last h hend =>
      obtain ⟨hgood, rfl, rfl⟩ := (htold _ _ _ hclosing (.of_blanks hend hapart)).mp h
      obtain ⟨_, rfl⟩ := List.cons.inj ((blanks_iff_of_not_blank hclose).mp hend)
      exact ⟨hgood, rfl, rfl⟩
    | cons h hmore _ _ =>
      have hnumeral : ¬IsNumeral ',' := by simp [IsNumeral]
      obtain ⟨_, _, rfl⟩ := (htold _ _ _ hclosing (.of_blanks hmore hnumeral)).mp h
      obtain ⟨heq, _⟩ := List.cons.inj ((blanks_iff_of_not_blank hclose).mp hmore)
      exact absurd heq.symm hcomma
  · rintro ⟨hgood, rfl, rfl⟩
    refine .last ((htold _ _ _ hclosing hclosing).mpr ⟨hgood, rfl, rfl⟩) ?_
    exact (blanks_iff_of_not_blank hclose).mpr rfl

/-- Things in a row begin as the first of them does. -/
theorem Separated.solid (h : Separated P close cs as rest)
    (hsolid : ∀ cs a rest, P cs a rest → Solid cs) : Solid cs := by
  cases h with
  | last h _ => exact hsolid _ _ _ h
  | cons h _ _ _ => exact hsolid _ _ _ h

/-- One of several things is told by the comma behind it, and the others stand behind that. -/
theorem separated_comma_iff {write : List Char} {a : α} {Good : Prop}
    (hapart : ¬IsNumeral close) (hcomma : close ≠ ',')
    (hsolid : ∀ cs a rest, P cs a rest → Solid cs) (hbehind : Solid behind)
    (htold : ∀ behind a' rest, Apart behind → Apart rest →
      (P (write ++ behind) a' rest ↔ Good ∧ a' = a ∧ rest = behind)) :
    Separated P close (write ++ ',' :: ' ' :: behind) as rest ↔
      Good ∧ ∃ others, as = a :: others ∧ Separated P close behind others rest := by
  have hnumeral : ¬IsNumeral ',' := by simp [IsNumeral]
  have hblank : ¬IsBlank ',' := by simp [IsBlank]
  have hmark : Apart (',' :: ' ' :: behind) := by simpa [Apart] using hnumeral
  constructor
  · intro h
    cases h with
    | last h hend =>
      obtain ⟨_, _, rfl⟩ := (htold _ _ _ hmark (.of_blanks hend hapart)).mp h
      obtain ⟨heq, _⟩ := List.cons.inj ((blanks_iff_of_not_blank hblank).mp hend)
      exact absurd heq hcomma
    | cons h hmore hblanks hrest =>
      obtain ⟨hgood, rfl, rfl⟩ := (htold _ _ _ hmark (.of_blanks hmore hnumeral)).mp h
      obtain ⟨_, rfl⟩ := List.cons.inj ((blanks_iff_of_not_blank hblank).mp hmore)
      obtain rfl := (blanks_blank_iff hbehind (hrest.solid hsolid)).mp hblanks
      exact ⟨hgood, _, rfl, hrest⟩
  · rintro ⟨hgood, others, rfl, hrest⟩
    refine .cons ((htold _ _ _ hmark hmark).mpr ⟨hgood, rfl, rfl⟩) ?_
      ((blanks_blank_iff hbehind hbehind).mpr rfl) hrest
    exact (blanks_iff_of_not_blank hblank).mpr rfl

/-- Things written in a row, with a comma and a blank between them. -/
def row (write : β → List Char) : List β → List Char
  | [] => []
  | b :: bs => write b ++ bs.flatMap fun x => ',' :: ' ' :: write x

variable {write : β → List Char} {tree : β → α} {Good : β → Prop}

/-- Things that are each told from what is behind them are so in a row, up to the mark that closes
them. -/
theorem separated_row_iff (hclose : ¬IsBlank close) (hapart : ¬IsNumeral close)
    (hcomma : close ≠ ',') (hsolid : ∀ cs a rest, P cs a rest → Solid cs) {b : β} {bs : List β}
    (hwrite : ∀ x ∈ b :: bs, ∀ rest, Solid (write x ++ rest))
    (htold : ∀ x ∈ b :: bs, ∀ behind a rest, Apart behind → Apart rest →
      (P (write x ++ behind) a rest ↔ Good x ∧ a = tree x ∧ rest = behind)) :
    Separated P close (row write (b :: bs) ++ close :: behind) as rest ↔
      (∀ x ∈ b :: bs, Good x) ∧ as = (b :: bs).map tree ∧ rest = behind := by
  rw [row, List.append_assoc]
  induction bs generalizing b as with
  | nil =>
    rw [List.flatMap_nil, List.nil_append,
      separated_close_iff hclose hapart hcomma (htold b List.mem_cons_self)]
    simp
  | cons x bs ih =>
    have hothers {others : List α} : Separated P close
        (write x ++ (bs.flatMap (fun x => ',' :: ' ' :: write x) ++ close :: behind)) others rest ↔
          (∀ y ∈ x :: bs, Good y) ∧ others = (x :: bs).map tree ∧ rest = behind :=
      ih (fun y hy => hwrite y (List.mem_cons_of_mem _ hy))
        fun y hy => htold y (List.mem_cons_of_mem _ hy)
    rw [List.flatMap_cons, List.cons_append, List.cons_append, List.cons_append, List.cons_append,
      List.append_assoc, separated_comma_iff hapart hcomma hsolid (hwrite x (by simp) _)
        (htold b List.mem_cons_self)]
    simp only [hothers, List.forall_mem_cons (a := b), List.map_cons (l := x :: bs)]
    constructor
    · rintro ⟨hgood, others, rfl, hrest, rfl, rfl⟩
      exact ⟨⟨hgood, hrest⟩, rfl, rfl⟩
    · rintro ⟨⟨hgood, hrest⟩, rfl, rfl⟩
      exact ⟨hgood, _, rfl, hrest, rfl, rfl⟩

/-- Things that are each told from what is behind them are so between two marks, however many they
are. -/
theorem enclosed_row_iff (hclose : close = ']' ∨ close = '\x7d')
    (hsolid : ∀ cs a rest, P cs a rest → Solid cs) {bs : List β}
    (hwrite : ∀ x ∈ bs, ∀ rest, Solid (write x ++ rest))
    (htold : ∀ x ∈ bs, ∀ behind a rest, Apart behind → Apart rest →
      (P (write x ++ behind) a rest ↔ Good x ∧ a = tree x ∧ rest = behind)) :
    Enclosed P close (row write bs ++ close :: behind) as rest ↔
      (∀ x ∈ bs, Good x) ∧ as = bs.map tree ∧ rest = behind := by
  have hgap : IsGap close := Or.inr hclose
  have hblank : ¬IsBlank close := by
    rcases hclose with rfl | rfl <;> simp [IsBlank]
  have hapart : ¬IsNumeral close := by
    rcases hclose with rfl | rfl <;> simp [IsNumeral]
  have hcomma : close ≠ ',' := by
    rcases hclose with rfl | rfl <;> decide
  cases bs with
  | nil =>
    constructor
    · rintro (⟨rfl, hend⟩ | ⟨front, hblanks, h⟩)
      · obtain ⟨_, rfl⟩ := List.cons.inj ((blanks_iff_of_not_blank hblank).mp hend)
        exact ⟨by simp, rfl, rfl⟩
      · obtain rfl := (blanks_iff_of_not_blank hblank).mp hblanks
        exact absurd hgap (solid_cons_iff.mp (h.solid hsolid))
    · rintro ⟨_, rfl, rfl⟩
      exact Or.inl ⟨rfl, (blanks_iff_of_not_blank hblank).mpr rfl⟩
  | cons b bs =>
    have hfront : Solid (row write (b :: bs) ++ close :: behind) := by
      rw [row, List.append_assoc]
      exact hwrite b List.mem_cons_self _
    rw [← separated_row_iff hblank hapart hcomma hsolid hwrite htold]
    constructor
    · rintro (⟨rfl, hend⟩ | ⟨front, hblanks, h⟩)
      · rw [← hfront.blanks_iff.mp hend] at hfront
        exact absurd hgap (solid_cons_iff.mp hfront)
      · obtain rfl := hfront.blanks_iff.mp hblanks
        exact h
    · exact fun h => Or.inr ⟨_, hfront.blanks_iff.mpr rfl, h⟩

end Separated

end JsonGrammar

end HttpContract

