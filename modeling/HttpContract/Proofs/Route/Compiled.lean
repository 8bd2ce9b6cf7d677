import HttpContract.Pattern.Matcher
import HttpContract.Route.Template

/-!
# Templates as regular expressions

A template stands for a regular expression: its characters, with a backslash in front of those that
mean something else, and a group of one or more characters but slashes for every variable, all
between the marks for the start and the end. The expression is read as it is meant, and matching it
from the front of a path gives what the template finds there. The search prefers long groups and
goes back to shorter ones, and the mark for the end holds in front of a last line feed as well.
-/

namespace HttpContract

namespace Template

/-- What a variable may stand for, without its group: characters but slashes, at least one and as
many as possible. -/
def variableBody : Pattern :=
  .sequence [.repeated 1 none .greedy (.oneOf {} true [.single '/'.toNat])]

/-- The expressions of parts and of the end, the groups being numbered from `number` on. -/
def patternsFrom (number : Nat) : Template → List Pattern
  | [] => [.anchor {} .lineEnd]
  | .letter c :: parts => .single {} c.toNat :: patternsFrom number parts
  | .capture _ :: parts => .group (some number) variableBody :: patternsFrom (number + 1) parts

/-- The expression that a template stands for. -/
def pattern (t : Template) : Pattern := .sequence (.anchor {} .lineStart :: patternsFrom 1 t)

end Template

namespace Pattern

/-- The characters that are written with a backslash in front when they mean themselves. -/
def specialCharacters : List Char := "()[]\x7b\x7d?*+-|^$\\.&~# \t\n\r\x0b\x0c".toList

/-- How a character is written that means itself. -/
def escape (c : Char) : List Char := if c ∈ specialCharacters then ['\\', c] else [c]

/-- The texts that groups have taken, in the order in which they were closed. -/
def texts (cs : List Char) (m : MatchState) : List (List Char) :=
  m.groups.reverse.map fun (_, first, last) => (cs.drop first).take (last - first)

/-- What the groups take when the expression of a text is matched from the front of a path. -/
def groupsAtFront? (regex : List Char) (path : String) : Option (List String) :=
  match parse regex with
  | .error _ => none
  | .ok p =>
    let found :=
      attempt (p.depth path.toList.length + 1) ⟨path.toList.toArray, false⟩ p ⟨0, []⟩ some
    found.map fun m => (texts path.toList m).map String.ofList

end Pattern

namespace Template

/-- What stands behind the opening parenthesis of a variable. -/
def insideGroup (rest : List Char) : List Char := '[' :: '^' :: '/' :: ']' :: '+' :: ')' :: rest

/-- The text of the expressions of parts and of the end. -/
def regexFrom : Template → List Char
  | [] => ['$']
  | .letter c :: parts => Pattern.escape c ++ regexFrom parts
  | .capture _ :: parts => '(' :: insideGroup (regexFrom parts)

/-- The text of the expression that a template stands for. -/
def regex (t : Template) : List Char := '^' :: regexFrom t

end Template

namespace Pattern

open Template

section Searching

variable {cs : List Char} {i fuel : Nat} {groups : List (Nat × Nat × Nat)} {next : Continuation}

/-- Characters as a text to search, at whose end a line feed is no end of a line of its own. -/
def subjectOf (cs : List Char) : Subject := ⟨cs.toArray, false⟩

/-- How many characters stand at a position before a slash or the end. -/
def reach (cs : List Char) (i : Nat) : Nat := ((cs.drop i).takeWhile (· != '/')).length

/-- The code at a position is that of the first character from there on. -/
theorem code?_subjectOf (cs : List Char) (i : Nat) :
    (subjectOf cs).code? i = (cs.drop i).head?.map Char.toNat := by
  rw [List.head?_drop]
  simp [Subject.code?, subjectOf]

/-- The mark for the end holds at the end, and in front of a line feed there. -/
theorem holdsAt_lineEnd (hi : i ≤ cs.length) : (subjectOf cs).holdsAt {} .lineEnd i =
    ((cs.drop i).isEmpty || cs.drop i == ['\n']) := by
  have hlength : (cs.drop i).length = cs.length - i := List.length_drop
  have hsize : (subjectOf cs).text.size = cs.length := List.size_toArray
  unfold Subject.holdsAt
  dsimp only
  rw [code?_subjectOf, hsize]
  generalize cs.drop i = rest at hlength ⊢
  match rest with
  | [] =>
    rw [List.length_nil] at hlength
    have hend : i = cs.length := by omega
    simp [hend]
  | [c] =>
    rw [List.length_singleton] at hlength
    have hend : i + 1 = cs.length := by omega
    have hcode : (c.toNat == 10) = (c == '\n') := by
      rw [Bool.eq_iff_iff, beq_iff_eq, beq_iff_eq]
      exact (Char.toNat_inj : c.toNat = '\n'.toNat ↔ c = '\n')
    have hinside : (i == i + 1) = false := by simp
    simp [← hend, subjectOf, hcode, hinside]
  | c :: d :: rest =>
    rw [List.length_cons, List.length_cons] at hlength
    have hinside : i ≠ cs.length ∧ i + 1 ≠ cs.length := by omega
    simp [hinside]

/-- A character is matched by itself only. -/
theorem attempt_single {c : Char} :
    attempt (fuel + 1) (subjectOf cs) (.single {} c.toNat) ⟨i, groups⟩ next =
      match cs.drop i with
      | [] => none
      | d :: _ => if c = d then next ⟨i + 1, groups⟩ else none := by
  rw [attempt]
  dsimp only
  rw [code?_subjectOf]
  cases cs.drop i with
  | nil => rfl
  | cons d rest => simp [agrees, Char.toNat_inj]

/-- Any character but a slash is matched where there is one. -/
theorem attempt_slashless :
    attempt (fuel + 1) (subjectOf cs) (.oneOf {} true [.single '/'.toNat]) ⟨i, groups⟩ next =
      if 0 < reach cs i then next ⟨i + 1, groups⟩ else none := by
  rw [attempt, reach]
  dsimp only
  rw [code?_subjectOf]
  cases cs.drop i with
  | nil => rfl
  | cons c rest =>
    have hcode : ('/'.toNat == c.toNat) = (c == '/') := by
      rw [Bool.eq_iff_iff, beq_iff_eq, beq_iff_eq, eq_comm]
      exact Char.toNat_inj
    simp only [List.head?_cons, Option.map_some, List.any_cons, List.any_nil, belongs, agrees,
      hcode]
    by_cases hc : c = '/' <;> simp [hc]

/-- One character further the reach is one less. -/
theorem reach_eq_succ (h : 0 < reach cs i) : reach cs i = reach cs (i + 1) + 1 := by
  unfold reach at h ⊢
  rw [← List.drop_drop]
  cases hrest : cs.drop i with
  | nil =>
    rw [hrest] at h
    cases h
  | cons c rest =>
    rw [hrest] at h
    by_cases hc : c = '/'
    · simp [hc] at h
    · simp [hc]

/-- What is found for the last number below a bound is found for the last one but the first, or else
for the first. -/
theorem findSome?_reverse_range_succ {α : Type} (f : Nat → Option α) (k : Nat) :
    (List.range (k + 1)).reverse.findSome? f =
      ((List.range k).reverse.findSome? fun n => f (n + 1)).or (f 0) := by
  rw [List.range_succ_eq_map, List.reverse_cons, List.findSome?_append, ← List.map_reverse,
    List.findSome?_map, List.findSome?_singleton]
  rfl

/-- Further rounds take as many characters as there are, or as many fewer as what follows needs. -/
theorem attemptRounds_further (last : Option Nat) (hlast : last ≠ some i)
    (hfuel : reach cs i + 1 < fuel) :
    attemptRounds fuel (subjectOf cs) (.oneOf {} true [.single '/'.toNat]) 0 none true last
        ⟨i, groups⟩ next =
      (List.range (reach cs i + 1)).reverse.findSome? fun n => next ⟨i + n, groups⟩ := by
  induction fuel generalizing i last with
  | zero => omega
  | succ fuel ih =>
    obtain ⟨fuel, rfl⟩ : ∃ less, fuel = less + 1 := ⟨fuel - 1, by omega⟩
    rw [attemptRounds, findSome?_reverse_range_succ]
    dsimp only
    rw [if_neg (Nat.lt_irrefl 0), if_neg (by simpa using hlast), if_pos rfl, attempt_slashless]
    by_cases hreach : 0 < reach cs i
    · have hless := reach_eq_succ hreach
      have hround := ih (i := i + 1) (some i) (by simp) (by omega)
      simp only [Option.map_none, Nat.zero_sub]
      rw [if_pos hreach, hround, hless]
      simp only [Nat.add_assoc, Nat.add_comm 1]
      cases List.findSome? _ _ <;> rfl
    · rw [if_neg hreach, Nat.eq_zero_of_not_pos hreach]
      rfl

/-- The group of a variable takes characters up to a slash, as many as what follows lets it. -/
theorem attempt_variable {number : Nat} (hfuel : reach cs i + 6 < fuel) :
    attempt fuel (subjectOf cs) (.group (some number) variableBody) ⟨i, groups⟩ next =
      (List.range (reach cs i)).reverse.findSome? fun n =>
        next ⟨i + (n + 1), (number, i, i + (n + 1)) :: groups⟩ := by
  obtain ⟨fuel, rfl⟩ : ∃ less, fuel = less + 6 := ⟨fuel - 6, by omega⟩
  rw [variableBody, attempt]
  dsimp only
  rw [attempt, attemptAll, attempt]
  simp only [attemptAll]
  rw [attemptRounds]
  dsimp only
  rw [if_pos Nat.one_pos, attempt_slashless]
  by_cases hreach : 0 < reach cs i
  · have hless := reach_eq_succ hreach
    have hlast : some i ≠ some (i + 1) := by simp
    rw [if_pos hreach, Option.map_none, Nat.sub_self, attemptRounds_further _ hlast (by omega),
      hless]
    simp only [Nat.add_assoc, Nat.add_comm 1]
  · rw [if_neg hreach, Nat.eq_zero_of_not_pos hreach]
    rfl

/-- What a group that has taken a part of a text adds to the texts of the groups. -/
theorem texts_cons (number first last position : Nat) :
    texts cs ⟨position, (number, first, last) :: groups⟩ =
      texts cs ⟨i, groups⟩ ++ [(cs.drop first).take (last - first)] := by
  simp [texts]

/-- What the search finds for the first number for which it finds something depends on what is found
for each. -/
theorem findSome?_congr {α β : Type} {f g : α → Option β} {l : List α} (h : ∀ a ∈ l, f a = g a) :
    l.findSome? f = l.findSome? g := by
  induction l with
  | nil => rfl
  | cons a l ih =>
    rw [List.findSome?_cons, List.findSome?_cons, h a List.mem_cons_self,
      ih fun b hb => h b (List.mem_cons_of_mem a hb)]

/-- The bound for the depth of a search for a variable. -/
theorem depth_variable (size number : Nat) :
    depth size (.group (some number) variableBody) = size + 10 := by
  simp only [variableBody, depth, depthOfAll]
  omega

/-- The expressions of parts find from a position what the parts find there. -/
theorem attemptAll_patternsFrom (parts : Template) {number : Nat} (hi : i ≤ cs.length)
    (hfuel : depthOfAll cs.length (patternsFrom number parts) < fuel) :
    (attemptAll fuel (subjectOf cs) (patternsFrom number parts) ⟨i, groups⟩ some).map (texts cs) =
      (parts.valuesIn (cs.drop i)).map (texts cs ⟨i, groups⟩ ++ ·) := by
  induction parts generalizing fuel number i groups with
  | nil =>
    rw [patternsFrom, depthOfAll] at hfuel
    obtain ⟨fuel, rfl⟩ : ∃ less, fuel = less + 2 := ⟨fuel - 2, by omega⟩
    rw [patternsFrom, attemptAll, attempt]
    dsimp only
    rw [holdsAt_lineEnd hi, Template.valuesIn]
    split
    · simp [attemptAll, texts]
    · rfl
  | cons part parts ih =>
    cases part with
    | letter c =>
      rw [patternsFrom, depthOfAll] at hfuel
      obtain ⟨fuel, rfl⟩ : ∃ less, fuel = less + 2 := ⟨fuel - 2, by omega⟩
      rw [patternsFrom, attemptAll, attempt_single]
      cases hrest : cs.drop i with
      | nil => rfl
      | cons d rest =>
        have hdrop : cs.drop (i + 1) = rest := by rw [← List.drop_drop, hrest, List.drop_one]; rfl
        have hlength : i + 1 ≤ cs.length := by
          have hrestLength := congrArg List.length hrest
          rw [List.length_drop, List.length_cons] at hrestLength
          omega
        rw [Template.valuesIn]
        dsimp only
        by_cases hcd : c = d
        · rw [if_pos hcd, if_pos hcd, ih hlength (by omega), hdrop]
          rfl
        · rw [if_neg hcd, if_neg hcd]
          rfl
    | capture name =>
      rw [patternsFrom, depthOfAll, depth_variable] at hfuel
      obtain ⟨fuel, rfl⟩ : ∃ less, fuel = less + 1 := ⟨fuel - 1, by omega⟩
      have hreach : reach cs i ≤ cs.length - i := by
        rw [← List.length_drop]
        exact (List.takeWhile_prefix _).length_le
      rw [patternsFrom, attemptAll, attempt_variable (by omega), Template.valuesIn,
        List.map_findSome?, List.map_findSome?]
      refine findSome?_congr fun n hn => ?_
      rw [List.mem_reverse, List.mem_range] at hn
      rw [Function.comp_apply, Function.comp_apply, ih (by omega) (by omega), Option.map_map,
        List.drop_drop]
      refine congrArg (Option.map · _) (funext fun values => ?_)
      rw [texts_cons (i := i), List.append_assoc, Nat.add_sub_cancel_left]
      rfl

/-- The expression of a template finds from the front of a path what the template finds there. -/
theorem attempt_pattern (t : Template) (cs : List Char) :
    (attempt (t.pattern.depth cs.length + 1) (subjectOf cs) t.pattern ⟨0, []⟩ some).map (texts cs) =
      t.valuesIn cs := by
  have hstart : (subjectOf cs).holdsAt {} .lineStart 0 = true := rfl
  rw [pattern, depth, depthOfAll, attempt]
  rw [attemptAll, attempt]
  dsimp only
  rw [if_pos hstart, attemptAll_patternsFrom t (Nat.zero_le _) (by omega), List.drop_zero]
  exact Option.map_id'

end Searching

section Reading

variable {c : Char} {rest : List Char} {fuel index : Nat} {widths : List (Option (Nat × Nat))}

/-- A reader without flags and names, with a token taken already. -/
def reader (token : Option PatternToken) (rest : List Char) (index : Nat)
    (widths : List (Option (Nat × Nat))) : PatternReader where
  rest
  index
  next := token
  flags := {}
  names := []
  widths
  behindFrom := none
  asked := []

/-- A reader that stands in front of a text at a position. -/
def standing (text : List Char) (index : Nat) (widths : List (Option (Nat × Nat))) :
    PatternReader :=
  match text with
  | '\\' :: c :: rest => reader (some (.escaped c)) rest (index + 2) widths
  | c :: rest => reader (some (.plain c)) rest (index + 1) widths
  | [] => reader none [] index widths

/-- In front of anything but a backslash the token is a character. -/
theorem standing_cons (hc : c ≠ '\\') (rest : List Char) (index : Nat)
    (widths : List (Option (Nat × Nat))) :
    standing (c :: rest) index widths = reader (some (.plain c)) rest (index + 1) widths := by
  unfold standing
  split
  · rename_i heq
    exact absurd (List.cons_eq_cons.mp heq).1 hc
  · rename_i heq
    cases heq
    rfl
  · rename_i heq
    cases heq

/-- No flags are set. -/
theorem flags_standing (text : List Char) (index : Nat) (widths : List (Option (Nat × Nat))) :
    (standing text index widths).flags = {} := by
  unfold standing
  split <;> rfl

/-- What follows a step that succeeds goes on from where the step ended. -/
theorem run_bind_of_run {α β : Type} {m : ReadPattern α} {k : α → ReadPattern β}
    {r after : PatternReader} {a : α} (h : m.run r = .ok (a, after)) :
    (m >>= k).run r = (k a).run after := by
  rw [StateT.run_bind, h]
  rfl

/-- A token ahead, the reader stands in front of what follows. A backslash must not be last. -/
theorem run_advance (hrest : rest ≠ ['\\']) (token : Option PatternToken) (index : Nat)
    (widths : List (Option (Nat × Nat))) :
    ReadPattern.advance.run (reader token rest index widths) =
      .ok ((), standing rest index widths) := by
  unfold ReadPattern.advance
  rw [run_bind_of_run (StateT.run_get _)]
  unfold standing reader
  dsimp only
  split
  · rfl
  · exact absurd rfl hrest
  · rfl
  · rename_i hplain
    split
    · rename_i heq
      cases heq
      exact absurd rfl (hplain _ _ rfl)
    · rename_i heq
      cases heq
      rfl
    · rename_i heq
      cases heq

/-- Looking at the token takes nothing. -/
theorem run_peek (token : Option PatternToken) (rest : List Char) (index : Nat)
    (widths : List (Option (Nat × Nat))) :
    ReadPattern.peek.run (reader token rest index widths) =
      .ok (token, reader token rest index widths) := rfl

/-- A character that has no meaning of its own is read as itself. -/
theorem readParts_plain (hc : c ∉ specialCharacters) (hrest : rest ≠ ['\\']) (fuel : Nat)
    (front : Bool) (done : List Pattern) :
    (readParts (fuel + 1) front done).run (standing (c :: rest) index widths) =
      (readParts fuel front (.single {} c.toNat :: done)).run
        (standing rest (index + 1) widths) := by
  have hne (d : Char) (hd : d ∈ specialCharacters) : c ≠ d := fun he => hc (he ▸ hd)
  have hbar : ¬PatternToken.plain c = .plain '|' := fun h => hne '|' (by decide) (by cases h; rfl)
  have hclose : ¬PatternToken.plain c = .plain ')' := fun h => hne ')' (by decide) (by cases h; rfl)
  rw [standing_cons (hne _ (by decide)), readParts, run_bind_of_run (StateT.run_get _),
    run_bind_of_run (run_peek _ _ _ _)]
  split
  · rename_i heq
    cases heq
  · rename_i heq
    exact absurd (Option.some.inj heq) hbar
  · rename_i heq
    exact absurd (Option.some.inj heq) hclose
  · rename_i heq
    cases heq
  · rename_i heq
    cases heq
    rw [run_bind_of_run (run_advance hrest _ _ _)]
    -- No flag is set, so that blanks and number signs are read as any other character.
    rw [if_neg (by simp [reader]), if_neg (by simp [reader])]
    split
    all_goals first | rfl | exact absurd rfl (hne _ (by decide))

/-- But for the backslash, no character with a meaning of its own is a letter or a digit, or has
another meaning behind a backslash. -/
theorem escapes_specialCharacters (hc : c ∈ specialCharacters) : c = '\\' ∨
    (categoryEscape? c <|> anchorEscape? c <|> controlEscape? c).isNone = true ∧
      isLetter c = false ∧ c.isDigit = false := by
  have htable : (specialCharacters.all fun d => d == '\\' ||
      (categoryEscape? d <|> anchorEscape? d <|> controlEscape? d).isNone &&
        (!isLetter d && !d.isDigit)) = true := by
    decide
  have hone := List.all_eq_true.mp htable c hc
  simpa only [Bool.or_eq_true, Bool.and_eq_true, Bool.not_eq_true', beq_iff_eq] using hone

/-- A character with a backslash in front stands for itself, if it has a meaning without. -/
theorem run_readEscape (hc : c ∈ specialCharacters) (fuel : Nat) (r : PatternReader) :
    (readEscape fuel c).run r = .ok (.code c.toNat, r) := by
  rcases escapes_specialCharacters hc with rfl | ⟨hnone, hletter, hdigit⟩
  · rfl
  · have hne (d : Char) (hd : (isLetter d || d.isDigit) = true) : c ≠ d := by
      rintro rfl
      rw [hletter, hdigit] at hd
      cases hd
    unfold readEscape
    rw [Option.isNone_iff_eq_none.mp hnone]
    dsimp only
    rw [if_neg (hne '0' rfl), if_neg (by simp [hdigit]), readCommonEscape, if_neg (hne 'x' rfl),
      if_neg (hne 'u' rfl), if_neg (hne 'U' rfl), if_neg (hne 'N' rfl)]
    dsimp only
    rw [if_neg (by simp [hletter, hdigit])]
    rfl

/-- So it is read as itself where parts are expected. -/
theorem readParts_escaped (hc : c ∈ specialCharacters) (hrest : rest ≠ ['\\']) (fuel : Nat)
    (front : Bool) (done : List Pattern) :
    (readParts (fuel + 1) front done).run (standing ('\\' :: c :: rest) index widths) =
      (readParts fuel front (.single {} c.toNat :: done)).run
        (standing rest (index + 2) widths) := by
  rw [standing, readParts, run_bind_of_run (StateT.run_get _),
    run_bind_of_run (run_peek _ _ _ _)]
  dsimp only
  rw [run_bind_of_run (run_advance hrest _ _ _), run_bind_of_run (run_readEscape hc _ _)]
  rfl

/-- The mark for the start is a part. -/
theorem readParts_start (hrest : rest ≠ ['\\']) (fuel : Nat) (front : Bool) :
    (readParts (fuel + 1) front []).run (standing ('^' :: rest) index widths) =
      (readParts fuel front [.anchor {} .lineStart]).run (standing rest (index + 1) widths) := by
  have hahead : (readParts (fuel + 1) front []).run
      (reader (some (.plain '^')) rest (index + 1) widths) =
        (ReadPattern.advance >>= fun _ => readParts fuel front [.anchor {} .lineStart]).run
          (reader (some (.plain '^')) rest (index + 1) widths) := by
    rw [readParts]
    rfl
  rw [standing_cons (by decide), hahead, run_bind_of_run (run_advance hrest _ _ _)]

/-- The mark for the end is the last part. -/
theorem readParts_end (fuel : Nat) (front : Bool) (done : List Pattern) :
    (readParts (fuel + 2) front done).run (standing ['$'] index widths) =
      .ok (.sequence (.anchor {} .lineEnd :: done).reverse, standing [] (index + 1) widths) := rfl

/-- The group of a variable is read up to what follows its closing parenthesis. -/
theorem run_readGroup (hrest : rest ≠ ['\\']) (fuel start : Nat) :
    (readGroup (fuel + 6) start false).run (standing (insideGroup rest) index widths) =
      .ok (some (.group (some widths.length) variableBody),
        standing rest (index + 6) (widths ++ [some variableBody.width])) := by
  have hkind : (readGroupKind (fuel + 5) start false).run
      (standing (insideGroup rest) index widths) =
        .ok (.plain none, standing (insideGroup rest) index widths) := rfl
  have hopen : (openGroup none).run (standing (insideGroup rest) index widths) =
      .ok (widths.length, standing (insideGroup rest) index (widths ++ [none])) := rfl
  have hbody : (withFlags {} (readAlternatives (fuel + 5) false [])).run
      (standing (insideGroup rest) index (widths ++ [none])) =
        .ok (variableBody, reader (some (.plain ')')) rest (index + 6) (widths ++ [none])) := rfl
  have hclose : (closeParenthesis start).run
      (reader (some (.plain ')')) rest (index + 6) (widths ++ [none])) =
        .ok ((), standing rest (index + 6) (widths ++ [none])) := by
    rw [closeParenthesis, ReadPattern.accept, bind_assoc, run_bind_of_run (run_peek _ _ _ _),
      if_pos rfl, bind_assoc, run_bind_of_run (run_advance hrest _ _ _)]
    rfl
  have hwidth : (closeGroup widths.length variableBody).run
      (standing rest (index + 6) (widths ++ [none])) =
        .ok ((), standing rest (index + 6) (widths ++ [some variableBody.width])) := by
    have hset : (widths ++ [none]).set widths.length (some variableBody.width) =
        widths ++ [some variableBody.width] := by simp
    unfold standing reader
    rw [← hset]
    split <;> rfl
  rw [readGroup, run_bind_of_run (StateT.run_get _), run_bind_of_run hkind, flags_standing]
  dsimp only
  rw [run_bind_of_run hopen, run_bind_of_run hbody, run_bind_of_run hclose, run_bind_of_run hwidth]
  rfl

/-- An opening parenthesis begins a group, which is a part if there is something to it. -/
theorem readParts_open (fuel : Nat) (front : Bool) (done : List Pattern) :
    ∃ further : Option Pattern → ReadPattern Pattern,
      (∀ part, further (some part) = readParts fuel front (part :: done)) ∧
      (readParts (fuel + 1) front done).run (reader (some (.plain '(')) rest index widths) =
        (ReadPattern.advance >>= fun _ => ReadPattern.tell >>= fun here =>
          readGroup fuel (here - 1) (front && done.isEmpty) >>= further).run
            (reader (some (.plain '(')) rest index widths) := by
  rw [readParts]
  refine ⟨_, ?_, rfl⟩
  intro part
  rfl

/-- The group of a variable is a part, with the next free number. -/
theorem readParts_variable (hrest : rest ≠ ['\\']) (fuel : Nat) (front : Bool) (part : Pattern)
    (done : List Pattern) :
    (readParts (fuel + 7) front (part :: done)).run
        (standing ('(' :: insideGroup rest) index widths) =
      (readParts (fuel + 6) front
        (.group (some widths.length) variableBody :: part :: done)).run
          (standing rest (index + 7) (widths ++ [some variableBody.width])) := by
  have hinside : insideGroup rest ≠ ['\\'] := by simp [insideGroup]
  have htell : ReadPattern.tell.run (standing (insideGroup rest) (index + 1) widths) =
      .ok (index + 1, standing (insideGroup rest) (index + 1) widths) := rfl
  obtain ⟨further, hfurther, hahead⟩ := readParts_open (fuel + 6) front (part :: done)
  rw [standing_cons (by decide), hahead, run_bind_of_run (run_advance hinside _ _ _),
    run_bind_of_run htell, List.isEmpty_cons, Bool.and_false,
    run_bind_of_run (run_readGroup hrest _ _), hfurther]

/-- The text of parts is longer than their number. -/
theorem length_lt_regexFrom (t : Template) : t.length < (regexFrom t).length := by
  induction t with
  | nil => exact Nat.one_pos
  | cons part parts ih =>
    cases part with
    | letter c =>
      have hone : 1 ≤ (escape c).length := by
        unfold escape
        split
        · exact Nat.le_succ 1
        · exact Nat.le_refl 1
      rw [regexFrom, List.length_append, List.length_cons]
      omega
    | capture name =>
      simp only [regexFrom, insideGroup, List.length_cons]
      omega

/-- The text of parts is no backslash alone. -/
theorem regexFrom_ne_backslash (t : Template) : regexFrom t ≠ ['\\'] := by
  cases t with
  | nil => simp [regexFrom]
  | cons part parts =>
    cases part with
    | letter c =>
      have hlength := length_lt_regexFrom parts
      unfold regexFrom escape
      split
      · simp
      · rw [List.singleton_append]
        rintro heq
        rw [(List.cons_eq_cons.mp heq).2] at hlength
        cases hlength
    | capture name => simp [regexFrom, insideGroup]

/-- The text of parts is read as their expressions. -/
theorem readParts_regexFrom (t : Template) (front : Bool) (part : Pattern) (done : List Pattern)
    (hfuel : t.length + 8 < fuel) : ∃ index' widths',
      (readParts fuel front (part :: done)).run (standing (regexFrom t) index widths) =
        .ok (.sequence ((part :: done).reverse ++ patternsFrom widths.length t),
          standing [] index' widths') := by
  induction t generalizing fuel part done index widths with
  | nil =>
    obtain ⟨fuel, rfl⟩ : ∃ less, fuel = less + 2 := ⟨fuel - 2, by omega⟩
    refine ⟨index + 1, widths, ?_⟩
    rw [regexFrom, readParts_end, List.reverse_cons]
    rfl
  | cons first t ih =>
    rw [List.length_cons] at hfuel
    cases first with
    | letter c =>
      obtain ⟨fuel, rfl⟩ : ∃ less, fuel = less + 1 := ⟨fuel - 1, by omega⟩
      have hless : t.length + 8 < fuel := by omega
      rw [regexFrom, escape, patternsFrom]
      by_cases hc : c ∈ specialCharacters
      · obtain ⟨index', widths', h⟩ := ih (.single {} c.toNat) (part :: done) hless
        refine ⟨index', widths', ?_⟩
        rw [if_pos hc, List.cons_append, List.singleton_append,
          readParts_escaped hc (regexFrom_ne_backslash t), h, List.reverse_cons, List.append_assoc,
          List.singleton_append]
      · obtain ⟨index', widths', h⟩ := ih (.single {} c.toNat) (part :: done) hless
        refine ⟨index', widths', ?_⟩
        rw [if_neg hc, List.singleton_append, readParts_plain hc (regexFrom_ne_backslash t), h,
          List.reverse_cons, List.append_assoc, List.singleton_append]
    | capture name =>
      obtain ⟨fuel, rfl⟩ : ∃ less, fuel = less + 7 := ⟨fuel - 7, by omega⟩
      have hless : t.length + 8 < fuel + 6 := by omega
      obtain ⟨index', widths', h⟩ :=
        ih (.group (some widths.length) variableBody) (part :: done) hless
      refine ⟨index', widths', ?_⟩
      rw [regexFrom, patternsFrom, readParts_variable (regexFrom_ne_backslash t), h,
        List.reverse_cons, List.append_assoc, List.singleton_append, List.length_append,
        List.length_singleton]

/-- Nothing is looked for behind a place. -/
theorem allLookBehindByWidth_patternsFrom (t : Template) (number : Nat) :
    allLookBehindByWidth (patternsFrom number t) = true := by
  induction t generalizing number with
  | nil => rfl
  | cons part parts ih =>
    cases part with
    | letter c => exact ih number
    | capture name => exact ih (number + 1)

/-- The text of the expression that a template stands for is read as this expression. -/
theorem parse_regex (t : Template) : parse (regex t) = .ok t.pattern := by
  have hlength := length_lt_regexFrom t
  obtain ⟨fuel, hfuel⟩ : ∃ less, 4 * (regex t).length + 8 = less + 2 := ⟨_, rfl⟩
  have hmany : t.length + 8 < fuel := by
    rw [regex, List.length_cons] at hfuel
    omega
  obtain ⟨index, widths, hparts⟩ := readParts_regexFrom t true (.anchor {} .lineStart) [] hmany
  have hbranch : (readParts (fuel + 1) true []).run (standing (regex t) 0 [none]) =
      .ok (t.pattern, standing [] index widths) :=
    (readParts_start (regexFrom_ne_backslash t) _ _).trans hparts
  have halternatives : (readAlternatives (fuel + 2) true []).run (standing (regex t) 0 [none]) =
      .ok (t.pattern, standing [] index widths) := by
    rw [readAlternatives, List.isEmpty_nil, Bool.and_true, run_bind_of_run hbranch]
    rfl
  have hall : (readAll (4 * (regex t).length + 8)).run (reader none (regex t) 0 [none]) =
      .ok (t.pattern, standing [] index widths) := by
    have hne : regex t ≠ ['\\'] := by simp [regex]
    rw [hfuel, readAll, run_bind_of_run (run_advance hne _ _ _), run_bind_of_run halternatives]
    rfl
  have hwidths : t.pattern.looksBehindByWidth = true := allLookBehindByWidth_patternsFrom t 1
  unfold reader at hall
  unfold parse
  dsimp only
  rw [hall]
  exact if_pos hwidths

end Reading

/-- The text of the expression that a template stands for, matched from the front of a path, gives
what the template finds there. -/
theorem groupsAtFront?_regex (t : Template) (path : String) :
    groupsAtFront? t.regex path = t.match? path := by
  have hfound := attempt_pattern t path.toList
  unfold groupsAtFront? match?
  rw [parse_regex, ← hfound, Option.map_map]
  rfl

end Pattern

end HttpContract
