import HttpContract.Pattern.Reader
import HttpContract.Pattern.Folding

/-!
# Searching a text for a regular expression

A backtracking search: a part of an expression is tried at a place together with what must match
behind it, and choices are tried in their order until one lets the rest match. The depth of the
search is bounded by the size of the expression and the length of the text.
-/

namespace HttpContract

namespace Pattern

/-- The text that is searched. -/
structure Subject where
  text : Array Char
  /-- Whether the end of a line means only the end of the text. -/
  strictEnd : Bool

/-- A place in the text and what the groups have taken, by number. -/
structure MatchState where
  position : Nat
  groups : List (Nat × Nat × Nat)

namespace Subject

/-- The code at a position. -/
def code? (s : Subject) (i : Nat) : Option Nat := (s.text[i]?).map Char.toNat

/-- Membership in a class of characters. -/
def inClass (ascii : Bool) (kind : CharacterClass) (code : Nat) : Bool :=
  let c := Char.ofNat code
  if ascii && 128 ≤ code then false
  else match kind with
    | .digit => isDecimalDigit c
    | .space => if ascii then code == 32 || (9 ≤ code && code ≤ 13) else isBlank c
    | .word => isWordCharacter c

/-- A position with a word character. -/
def isWordAt (s : Subject) (ascii : Bool) (i : Nat) : Bool :=
  match s.code? i with
  | some code => inClass ascii .word code
  | none => false

/-- A condition on the place in front of position `i`. -/
def holdsAt (s : Subject) (flags : PatternFlags) (place : Anchor) (i : Nat) : Bool :=
  let size := s.text.size
  match place with
  | .textStart => i == 0
  | .textEnd => i == size
  | .lineStart => i == 0 || (flags.multiline && s.code? (i - 1) == some 10)
  | .lineEnd =>
    if flags.multiline then i == size || s.code? i == some 10
    else i == size || (!s.strictEnd && i + 1 == size && s.code? i == some 10)
  | .boundary =>
    size != 0 && ((i != 0 && s.isWordAt flags.ascii (i - 1)) != s.isWordAt flags.ascii i)
  | .noBoundary =>
    size != 0 && ((i != 0 && s.isWordAt flags.ascii (i - 1)) == s.isWordAt flags.ascii i)

end Subject

/-- Whether a character agrees with a single one. -/
def agrees (flags : PatternFlags) (expected code : Nat) : Bool :=
  if flags.ignoreCase then
    (foldClass flags.ascii (foldCode flags.ascii expected)).contains (foldCode flags.ascii code)
  else expected == code

/-- Whether a character belongs to a member of a set. -/
def belongs (flags : PatternFlags) (code : Nat) : SetItem → Bool
  | .single expected => agrees flags expected code
  | .range low high =>
    if flags.ignoreCase then
      (foldClass flags.ascii (foldCode flags.ascii code)).any fun folded =>
        (unfold flags.ascii folded).any fun source => low ≤ source && source ≤ high
    else low ≤ code && code ≤ high
  | .category kind negated =>
    let code := if flags.ignoreCase then foldCode flags.ascii code else code
    Subject.inClass flags.ascii kind code != negated

/-- Whether two stretches of the text agree. -/
def sameStretch (s : Subject) (flags : PatternFlags) (a b length : Nat) : Bool :=
  (List.range length).all fun i =>
    match s.code? (a + i), s.code? (b + i) with
    | some x, some y =>
      if flags.ignoreCase then foldCode flags.ascii x == foldCode flags.ascii y else x == y
    | _, _ => false

/-- What must match behind a part. -/
abbrev Continuation := MatchState → Option MatchState

mutual

/-- Tries a part at a place, followed by `next`. -/
def attempt (fuel : Nat) (s : Subject) (part : Pattern) (m : MatchState) (next : Continuation) :
    Option MatchState :=
  match fuel with
  | 0 => none
  | fuel + 1 =>
    let one (admits : Nat → Bool) : Option MatchState :=
      match s.code? m.position with
      | some code => if admits code then next { m with position := m.position + 1 } else none
      | none => none
    match part with
    | .single flags expected => one (agrees flags expected)
    | .anyCharacter flags => one fun code => flags.dotAll || code != 10
    | .oneOf flags negated items => one fun code => items.any (belongs flags code) != negated
    | .anchor flags place => if s.holdsAt flags place m.position then next m else none
    | .sequence parts => attemptAll fuel s parts m next
    | .alternatives branches => attemptAny fuel s branches m next
    | .group capture body =>
      attempt fuel s body m fun after =>
        match capture with
        | none => next after
        | some number =>
          next { after with groups := (number, m.position, after.position) :: after.groups }
    | .repeated least most mode body =>
      match mode with
      | .possessive =>
        match attemptRounds fuel s body least most true none m some with
        | some after => next after
        | none => none
      | .greedy => attemptRounds fuel s body least most true none m next
      | .reluctant => attemptRounds fuel s body least most false none m next
    | .atomic body =>
      match attempt fuel s body m some with
      | some after => next after
      | none => none
    | .look ahead negated body =>
      let width := if ahead then 0 else body.width.1
      let found :=
        if m.position < width then none
        else attempt fuel s body { m with position := m.position - width } some
      match found with
      | some after => if negated then none else next { after with position := m.position }
      | none => if negated then next m else none
    | .back flags number _ =>
      match m.groups.find? (·.1 = number) with
      | some (_, first, last) =>
        if sameStretch s flags first m.position (last - first) then
          next { m with position := m.position + (last - first) }
        else none
      | none => none
    | .conditional number whenSet otherwise =>
      if m.groups.any (·.1 = number) then attempt fuel s whenSet m next
      else attempt fuel s otherwise m next

/-- Tries parts one behind the other. -/
def attemptAll (fuel : Nat) (s : Subject) (parts : List Pattern) (m : MatchState)
    (next : Continuation) : Option MatchState :=
  match fuel with
  | 0 => none
  | fuel + 1 =>
    match parts with
    | [] => next m
    | part :: parts => attempt fuel s part m fun after => attemptAll fuel s parts after next

/-- Tries alternatives in their order. -/
def attemptAny (fuel : Nat) (s : Subject) (branches : List Pattern) (m : MatchState)
    (next : Continuation) : Option MatchState :=
  match fuel with
  | 0 => none
  | fuel + 1 =>
    match branches with
    | [] => none
    | branch :: branches =>
      match attempt fuel s branch m next with
      | some found => some found
      | none => attemptAny fuel s branches m next

/-- Tries rounds of a repetition. A round that may be left out is not tried again where the last
one began. -/
def attemptRounds (fuel : Nat) (s : Subject) (body : Pattern) (least : Nat) (most : Option Nat)
    (greedy : Bool) (last : Option Nat) (m : MatchState) (next : Continuation) :
    Option MatchState :=
  match fuel with
  | 0 => none
  | fuel + 1 =>
    let round : Option MatchState :=
      attempt fuel s body m fun after =>
        attemptRounds fuel s body (least - 1) (most.map (· - 1)) greedy (some m.position) after
          next
    if 0 < least then round
    else if most = some 0 || last = some m.position then next m
    else if greedy then
      match round with
      | some found => some found
      | none => next m
    else
      match next m with
      | some found => some found
      | none => round

end

mutual

/-- A bound for the depth of a search in a text of `size` characters. -/
def depth (size : Nat) : Pattern → Nat
  | .sequence parts => depthOfAll size parts + 1
  | .alternatives branches => depthOfAll size branches + 1
  | .group _ body | .atomic body | .look _ _ body => body.depth size + 1
  | .repeated least _ _ body => body.depth size + least + size + 4
  | .conditional _ whenSet otherwise => whenSet.depth size + otherwise.depth size + 1
  | _ => 1

/-- The sum of the bounds of several patterns. -/
def depthOfAll (size : Nat) : List Pattern → Nat
  | [] => 1
  | part :: parts => part.depth size + depthOfAll size parts + 1

end

/-- Whether an expression matches somewhere in a text. -/
def foundIn (pattern : Pattern) (strictEnd : Bool) (text : String) : Bool :=
  let s : Subject := ⟨text.toList.toArray, strictEnd⟩
  let fuel := pattern.depth s.text.size + 1
  (List.range (s.text.size + 1)).any fun start =>
    (attempt fuel s pattern ⟨start, []⟩ some).isSome

end Pattern

/-- Whether the expression that `regex` denotes is found in a text; a text that denotes none is
found nowhere. -/
def matchesRegex (regex text : String) (strictEnd : Bool) : Bool :=
  match Pattern.parse regex.toList with
  | .ok pattern => pattern.foundIn strictEnd text
  | .error _ => false

end HttpContract
