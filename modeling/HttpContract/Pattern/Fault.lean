import HttpContract.Number.Basic
import HttpContract.Text.Quoted

/-!
# Faults of regular expressions

Why a text is no regular expression, and where. The position is that of the character at which the
fault begins; a condition on the whole expression has none. A text that repeats a part more often
than can be counted is at fault as well, though it is written as regular expressions are.
-/

namespace HttpContract

/-- Why a number of times cannot be counted to. -/
inductive Uncountable where
  | tooManyTimes
  | tooManyDigits (count : Nat)
  deriving DecidableEq, Repr

/-- The wording of the reason. -/
def Uncountable.message : Uncountable → String
  | .tooManyTimes => "the repetition number is too large"
  | .tooManyDigits count => Number.overlongText count

/-- What is wrong with a regular expression. -/
inductive PatternProblem where
  | escapeAtEnd
  | badEscape (text : String)
  | incompleteEscape (text : String)
  | octalOutside (text : String)
  | missingBrace
  | missingName (what : String)
  | unterminatedName (terminator : String)
  | undefinedCharacter (name : String)
  | openGroupReference
  | lookBehindReference
  | invalidReference (number : Nat)
  | unterminatedSet
  | badRange (low high : String)
  | minimumAboveMaximum
  | nothingToRepeat
  | multipleRepeat
  | unexpectedEnd
  | unknownExtension (text : String)
  | badGroupName (name : String)
  | unknownGroupName (name : String)
  | badGroupNumber
  | redefinedGroup (name : String) (number earlier : Nat)
  | unterminatedComment
  | unterminatedGroup
  | unbalanced
  | threeBranches
  | flagsNotAtStart
  | unknownFlag
  | missingFlag
  | missingFlagEnd
  | missingColon
  | localeFlag
  | incompatibleFlags
  | typeFlagOff
  | flagOnAndOff
  | variableLookBehind
  | uncountable (why : Uncountable)
  deriving DecidableEq, Repr

/-- The wording of a problem. -/
def PatternProblem.message : PatternProblem → String
  | .escapeAtEnd => "bad escape (end of pattern)"
  | .badEscape text => "bad escape " ++ text
  | .incompleteEscape text => "incomplete escape " ++ text
  | .octalOutside text => "octal escape value " ++ text ++ " outside of range 0-0o377"
  | .missingBrace => "missing \x7b"
  | .missingName what => "missing " ++ what
  | .unterminatedName terminator => "missing " ++ terminator ++ ", unterminated name"
  | .undefinedCharacter name => "undefined character name " ++ quoted name
  | .openGroupReference => "cannot refer to an open group"
  | .lookBehindReference => "cannot refer to group defined in the same lookbehind subpattern"
  | .invalidReference number => s!"invalid group reference {number}"
  | .unterminatedSet => "unterminated character set"
  | .badRange low high => "bad character range " ++ low ++ "-" ++ high
  | .minimumAboveMaximum => "min repeat greater than max repeat"
  | .nothingToRepeat => "nothing to repeat"
  | .multipleRepeat => "multiple repeat"
  | .unexpectedEnd => "unexpected end of pattern"
  | .unknownExtension text => "unknown extension " ++ text
  | .badGroupName name => "bad character in group name " ++ quoted name
  | .unknownGroupName name => "unknown group name " ++ quoted name
  | .badGroupNumber => "bad group number"
  | .redefinedGroup name number earlier =>
    s!"redefinition of group name {quoted name} as group {number}; was group {earlier}"
  | .unterminatedComment => "missing ), unterminated comment"
  | .unterminatedGroup => "missing ), unterminated subpattern"
  | .unbalanced => "unbalanced parenthesis"
  | .threeBranches => "conditional backref with more than two branches"
  | .flagsNotAtStart => "global flags not at the start of the expression"
  | .unknownFlag => "unknown flag"
  | .missingFlag => "missing flag"
  | .missingFlagEnd => "missing -, : or )"
  | .missingColon => "missing :"
  | .localeFlag => "bad inline flags: cannot use 'L' flag with a str pattern"
  | .incompatibleFlags => "bad inline flags: flags 'a', 'u' and 'L' are incompatible"
  | .typeFlagOff => "bad inline flags: cannot turn off flags 'a', 'u' and 'L'"
  | .flagOnAndOff => "bad inline flags: flag turned on and off"
  | .variableLookBehind => "look-behind requires fixed-width pattern"
  | .uncountable why => why.message

/-- A problem and the position at which it was seen. -/
structure PatternFault where
  problem : PatternProblem
  position : Option Nat
  deriving DecidableEq, Repr

/-- The wording of a fault in a given expression; a text of several lines also gets line and
column. -/
def PatternFault.message (text : List Char) (f : PatternFault) : String :=
  match f.position with
  | none => f.problem.message
  | some position =>
    let before := text.take position
    let line := before.count '\n' + 1
    let column := (before.reverse.takeWhile (· != '\n')).length + 1
    let place := s!"{f.problem.message} at position {position}"
    if text.contains '\n' then s!"{place} (line {line}, column {column})" else place

end HttpContract
