import HttpContract.Text.Case
import HttpContract.Text.Blank
import HttpContract.Text.WordCharacter

/-!
# Regular expressions

The tree of a regular expression. Flags are resolved while it is read, so every node that they
steer carries its own. Characters are given by their codes.
-/

namespace HttpContract

/-- The flags that steer how a part of an expression matches. -/
structure PatternFlags where
  ignoreCase : Bool := false
  multiline : Bool := false
  dotAll : Bool := false
  verbose : Bool := false
  ascii : Bool := false
  deriving DecidableEq, Repr

/-- The classes of characters with a letter of their own. -/
inductive CharacterClass where
  | digit
  | space
  | word
  deriving DecidableEq, Repr

/-- A member of a character set. -/
inductive SetItem where
  | single (code : Nat)
  | range (low high : Nat)
  | category (kind : CharacterClass) (negated : Bool)
  deriving DecidableEq, Repr

/-- A condition on the place between two characters. -/
inductive Anchor where
  | lineStart
  | lineEnd
  | textStart
  | textEnd
  | boundary
  | noBoundary
  deriving DecidableEq, Repr

/-- How a repetition chooses among the numbers of rounds. -/
inductive RepeatMode where
  | greedy
  | reluctant
  | possessive
  deriving DecidableEq, Repr

/-- A regular expression. -/
inductive Pattern where
  | single (flags : PatternFlags) (code : Nat)
  | anyCharacter (flags : PatternFlags)
  | oneOf (flags : PatternFlags) (negated : Bool) (items : List SetItem)
  | anchor (flags : PatternFlags) (place : Anchor)
  | sequence (parts : List Pattern)
  | alternatives (branches : List Pattern)
  | group (capture : Option Nat) (body : Pattern)
  | repeated (least : Nat) (most : Option Nat) (mode : RepeatMode) (body : Pattern)
  | atomic (body : Pattern)
  | look (ahead negated : Bool) (body : Pattern)
  | back (flags : PatternFlags) (number : Nat) (width : Nat × Nat)
  | conditional (number : Nat) (whenSet otherwise : Pattern)
  deriving Repr, Inhabited

namespace Pattern

/-- Widths are counted up to this bound, which stands for "without limit". -/
def widthLimit : Nat := Nat.pow 2 64

/-- A pair of widths cut off at the limit. -/
def capWidth (w : Nat × Nat) : Nat × Nat := (min w.1 widthLimit, min w.2 widthLimit)

mutual

/-- The least and the greatest number of characters that a match takes. -/
def width : Pattern → Nat × Nat
  | .single .. | .anyCharacter _ | .oneOf .. => (1, 1)
  | .anchor .. | .look .. => (0, 0)
  | .sequence parts => capWidth (widthOfParts parts)
  | .alternatives branches => widthOfBranches branches
  | .group _ body | .atomic body => body.width
  | .repeated least most _ body =>
    let (low, high) := body.width
    let high := match most with
      | none => if high = 0 then 0 else widthLimit
      | some n => high * n
    capWidth (low * least, high)
  | .back _ _ w => w
  | .conditional _ whenSet otherwise =>
    let (low, high) := whenSet.width
    let (low', high') := otherwise.width
    (min low low', max high high')

/-- The widths of parts that follow each other. -/
def widthOfParts : List Pattern → Nat × Nat
  | [] => (0, 0)
  | part :: parts =>
    let (low, high) := part.width
    let (low', high') := widthOfParts parts
    (low + low', high + high')

/-- The widths of alternatives. -/
def widthOfBranches : List Pattern → Nat × Nat
  | [] => (widthLimit, 0)
  | branch :: branches =>
    let (low, high) := branch.width
    let (low', high') := widthOfBranches branches
    (min low low', max high high')

end

mutual

/-- Whether everything that is looked for behind a place has one width. -/
def looksBehindByWidth : Pattern → Bool
  | .sequence parts | .alternatives parts => allLookBehindByWidth parts
  | .group _ body | .atomic body | .repeated _ _ _ body => body.looksBehindByWidth
  | .look ahead _ body =>
    (ahead || body.width.1 == body.width.2) && body.looksBehindByWidth
  | .conditional _ whenSet otherwise =>
    whenSet.looksBehindByWidth && otherwise.looksBehindByWidth
  | _ => true

/-- The same of every pattern of a list. -/
def allLookBehindByWidth : List Pattern → Bool
  | [] => true
  | part :: parts => part.looksBehindByWidth && allLookBehindByWidth parts

end

end Pattern

end HttpContract
