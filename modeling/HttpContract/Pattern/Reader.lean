import HttpContract.Pattern.Syntax
import HttpContract.Pattern.Fault

/-!
# Reading regular expressions

A recursive descent over the characters, one token ahead. A token is a character, or a backslash
with the character behind it. Every refusal names the problem and its position.
-/

namespace HttpContract

/-- One character, or a backslash and the character behind it. -/
inductive PatternToken where
  | plain (c : Char)
  | escaped (c : Char)
  deriving DecidableEq, Repr

namespace PatternToken

/-- The number of characters of a token. -/
def size : PatternToken → Nat
  | .plain _ => 1
  | .escaped _ => 2

/-- The characters of a token. -/
def text : PatternToken → String
  | .plain c => String.ofList [c]
  | .escaped c => String.ofList ['\\', c]

end PatternToken

/-- How far an expression has been read, and what is known about its groups. -/
structure PatternReader where
  /-- The characters behind the next token. -/
  rest : List Char
  /-- The position behind the next token. -/
  index : Nat
  /-- The next token. -/
  next : Option PatternToken
  /-- The flags in force. -/
  flags : PatternFlags
  /-- The names of groups. -/
  names : List (String × Nat)
  /-- The widths of the groups opened so far, known once they are closed. -/
  widths : List (Option (Nat × Nat))
  /-- Inside a look-behind, the number of groups opened before it. -/
  behindFrom : Option Nat
  /-- The groups that conditions ask for, with the first place of each. -/
  asked : List (Nat × Nat)

/-- A step of reading. -/
abbrev ReadPattern := StateT PatternReader (Except PatternFault)

namespace ReadPattern

/-- The position of the next token. -/
def tell : ReadPattern Nat := do
  let r ← get
  return r.index - (r.next.map PatternToken.size).getD 0

/-- A refusal `offset` characters in front of the next token. -/
def refuse {α : Type} (problem : PatternProblem) (offset : Nat) : ReadPattern α := do
  let position ← tell
  throw ⟨problem, some (position - offset)⟩

/-- Moves one token ahead. -/
def advance : ReadPattern Unit := do
  let r ← get
  match r.rest with
  | [] => set { r with next := none }
  | '\\' :: [] => throw ⟨.escapeAtEnd, some r.index⟩
  | '\\' :: c :: rest =>
    set { r with rest := rest, index := r.index + 2, next := some (.escaped c) }
  | c :: rest => set { r with rest := rest, index := r.index + 1, next := some (.plain c) }

/-- The next token without taking it. -/
def peek : ReadPattern (Option PatternToken) := do return (← get).next

/-- Takes the next token. -/
def take : ReadPattern (Option PatternToken) := do
  let token ← peek
  advance
  return token

/-- Takes the next token when it is the given character. -/
def accept (c : Char) : ReadPattern Bool := do
  if (← peek) = some (.plain c) then
    advance
    return true
  else return false

/-- Takes at most `count` characters of a kind. -/
def takeWhile (count : Nat) (p : Char → Bool) : ReadPattern (List Char) :=
  match count with
  | 0 => return []
  | count + 1 => do
    match ← peek with
    | some (.plain c) =>
      if p c then
        advance
        return c :: (← takeWhile count p)
      else return []
    | _ => return []

/-- Takes the name in front of a terminator, and the terminator. -/
def takeName (fuel : Nat) (terminator : Char) (what : String) (name : String) :
    ReadPattern String :=
  match fuel with
  | 0 => refuse .unexpectedEnd 0
  | fuel + 1 => do
    match ← take with
    | none =>
      if name.isEmpty then refuse (.missingName what) 0
      else refuse (.unterminatedName (String.ofList [terminator])) name.length
    | some token =>
      if token = .plain terminator then
        if name.isEmpty then refuse (.missingName what) 1 else return name
      else takeName fuel terminator what (name ++ token.text)

end ReadPattern

namespace Pattern

open ReadPattern

/-- An octal digit. -/
def isOctal (c : Char) : Bool := '0' ≤ c && c ≤ '7'

/-- A hexadecimal digit. -/
def isHex (c : Char) : Bool := c.isDigit || ('a' ≤ c && c ≤ 'f') || ('A' ≤ c && c ≤ 'F')

/-- An ASCII letter. -/
def isLetter (c : Char) : Bool := ('a' ≤ c && c ≤ 'z') || ('A' ≤ c && c ≤ 'Z')

/-- The number that digits write in a base up to 16. -/
def numberOf (base : Nat) (ds : List Char) : Nat :=
  ds.foldl (fun n c =>
    let d := if c.isDigit then c.toNat - 48
      else if 'a' ≤ c then c.toNat - 87
      else c.toNat - 55
    base * n + d) 0

/-- What an escape stands for. -/
inductive Escape where
  | code (value : Nat)
  | category (kind : CharacterClass) (negated : Bool)
  | anchor (place : Anchor)
  | back (number : Nat)

/-- The escapes that name a class of characters. -/
def categoryEscape? : Char → Option Escape
  | 'd' => some (.category .digit false)
  | 'D' => some (.category .digit true)
  | 's' => some (.category .space false)
  | 'S' => some (.category .space true)
  | 'w' => some (.category .word false)
  | 'W' => some (.category .word true)
  | _ => none

/-- The escapes that name a place. -/
def anchorEscape? : Char → Option Escape
  | 'A' => some (.anchor .textStart)
  | 'b' => some (.anchor .boundary)
  | 'B' => some (.anchor .noBoundary)
  | 'Z' => some (.anchor .textEnd)
  | _ => none

/-- The escapes that name a control character or the backslash. -/
def controlEscape? : Char → Option Escape
  | 'a' => some (.code 7)
  | 'b' => some (.code 8)
  | 'f' => some (.code 12)
  | 'n' => some (.code 10)
  | 'r' => some (.code 13)
  | 't' => some (.code 9)
  | 'v' => some (.code 11)
  | '\\' => some (.code 92)
  | _ => none

/-- An escape by a fixed number of hexadecimal digits behind its letter. -/
def readHex (letter : Char) (count : Nat) : ReadPattern Escape := do
  let ds ← takeWhile count isHex
  let text := String.ofList ('\\' :: letter :: ds)
  if ds.length ≠ count then refuse (.incompleteEscape text) text.length
  let value := numberOf 16 ds
  if 0x10FFFF < value then refuse (.badEscape text) text.length
  return .code value

/-- An escape by the name of a character. Which characters have names is not said here, so that
every name is refused. -/
def readNamed (fuel : Nat) : ReadPattern Escape := do
  if !(← accept '\x7b') then refuse .missingBrace 0
  let name ← takeName fuel '\x7d' "character name" ""
  refuse (.undefinedCharacter name) (name.length + 4)

/-- The escapes that mean the same inside a character set and outside; `letter` stands behind the
backslash. -/
def readCommonEscape (fuel : Nat) (letter : Char) : ReadPattern Escape := do
  if letter = 'x' then readHex 'x' 2
  else if letter = 'u' then readHex 'u' 4
  else if letter = 'U' then readHex 'U' 8
  else if letter = 'N' then readNamed fuel
  else
    let text := String.ofList ['\\', letter]
    if isLetter letter || letter.isDigit then refuse (.badEscape text) 2
    else return .code letter.toNat

/-- An octal escape with the given digits. -/
def octalEscape (ds : List Char) : ReadPattern Escape := do
  let value := numberOf 8 ds
  let text := String.ofList ('\\' :: ds)
  if 0o377 < value then refuse (.octalOutside text) text.length
  return .code value

/-- An escape inside a character set. -/
def readSetEscape (fuel : Nat) (letter : Char) : ReadPattern Escape := do
  match controlEscape? letter <|> categoryEscape? letter with
  | some found => return found
  | none =>
    if isOctal letter then octalEscape (letter :: (← takeWhile 2 isOctal))
    else readCommonEscape fuel letter

/-- Refuses a reference to a group that is open or belongs to the look-behind being read. -/
def checkLookBehind (number : Nat) : ReadPattern Unit := do
  let r ← get
  match r.behindFrom with
  | none => return
  | some before =>
    if ((r.widths[number]?).getD none).isNone then refuse .openGroupReference 0
    if before ≤ number then refuse .lookBehindReference 0

/-- A reference to a group by number; `size` is the length of its text. -/
def readReference (number size : Nat) : ReadPattern Escape := do
  let r ← get
  match r.widths[number]? with
  | some (some _) =>
    checkLookBehind number
    return .back number
  | some none => refuse .openGroupReference size
  | none => refuse (.invalidReference number) (size - 1)

/-- An escape outside a character set. -/
def readEscape (fuel : Nat) (letter : Char) : ReadPattern Escape := do
  match categoryEscape? letter <|> anchorEscape? letter <|> controlEscape? letter with
  | some found => return found
  | none =>
    if letter = '0' then octalValue (letter :: (← takeWhile 2 isOctal))
    else if letter.isDigit then
      let second ← takeWhile 1 Char.isDigit
      let third ←
        if isOctal letter && second.all isOctal && !second.isEmpty then takeWhile 1 isOctal
        else pure []
      let ds := letter :: second ++ third
      if third.isEmpty then readReference (numberOf 10 ds) (ds.length + 1)
      else octalEscape ds
    else readCommonEscape fuel letter
where
  /-- The character with an octal code of at most three digits. -/
  octalValue (ds : List Char) : ReadPattern Escape := return .code (numberOf 8 ds)

/-- One end of a range, or a member of its own. -/
def readSetMember (fuel : Nat) (token : PatternToken) : ReadPattern Escape :=
  match token with
  | .escaped c => readSetEscape fuel c
  | .plain c => return .code c.toNat

/-- The member that an escape stands for. -/
def Escape.item : Escape → SetItem
  | .code value => .single value
  | .category kind negated => .category kind negated
  | .anchor _ | .back _ => .single 0

/-- The members of a character set up to the closing bracket; `start` is the position of the
opening one. A bracket at the front is a member. -/
def readSet (fuel start : Nat) (items : List SetItem) : ReadPattern (List SetItem) :=
  match fuel with
  | 0 => refuse .unterminatedSet 0
  | fuel + 1 => do
    let unterminated : ReadPattern (List SetItem) := throw ⟨.unterminatedSet, some start⟩
    match ← take with
    | none => unterminated
    | some token =>
      if token = .plain ']' ∧ items ≠ [] then return items
      else
        let low ← readSetMember fuel token
        if ← accept '-' then
          match ← take with
          | none => unterminated
          | some (.plain ']') => return items ++ [low.item, .single '-'.toNat]
          | some other =>
            let high ← readSetMember fuel other
            let bad : ReadPattern (List SetItem) :=
              refuse (.badRange token.text other.text) (token.size + 1 + other.size)
            match low, high with
            | .code a, .code b =>
              if b < a then bad else readSet fuel start (items ++ [.range a b])
            | _, _ => bad
        else readSet fuel start (items ++ [low.item])

/-- The bounds between braces, none when the text is no bounds at all. -/
def readBounds (fuel : Nat) : ReadPattern (Option (List Char × List Char)) := do
  let low ← takeWhile fuel Char.isDigit
  let high ← if ← accept ',' then takeWhile fuel Char.isDigit else pure low
  if ← accept '\x7d' then return some (low, high) else return none

/-- The least number of times that a part cannot be repeated. -/
def repeatLimit : Nat := 4294967295

/-- The number of times that digits write, none of them standing for zero. -/
def readTimes (ds : List Char) : ReadPattern Nat := do
  if Number.digitLimit < ds.length then throw ⟨.uncountable (.tooManyDigits ds.length), none⟩
  let times := numberOf 10 ds
  if repeatLimit ≤ times then throw ⟨.uncountable .tooManyTimes, none⟩
  return times

/-- A flag letter. -/
def isFlag (c : Char) : Bool := "iLmsxatu".toList.contains c

/-- Flags with the one of a letter switched. -/
def setFlag (flags : PatternFlags) (c : Char) (on : Bool) : PatternFlags :=
  match c with
  | 'i' => { flags with ignoreCase := on }
  | 'm' => { flags with multiline := on }
  | 's' => { flags with dotAll := on }
  | 'x' => { flags with verbose := on }
  | 'a' => { flags with ascii := on }
  | 'u' => { flags with ascii := !on }
  | _ => flags

/-- The flag letters to switch on up to a closing parenthesis, a minus or a colon, which is given
back with them. -/
def readFlagsOn (fuel : Nat) (c : Char) (seen : List Char) : ReadPattern (List Char × Char) :=
  match fuel with
  | 0 => refuse .missingFlagEnd 0
  | fuel + 1 => do
    if c = 'L' then refuse .localeFlag 0
    let kinds := (c :: seen).filter fun x => x = 'a' || x = 'u'
    if (c = 'a' || c = 'u') && kinds.any (· != c) then refuse .incompatibleFlags 0
    match ← take with
    | none => refuse .missingFlagEnd 0
    | some token =>
      match token with
      | .plain d =>
        if d = ')' || d = '-' || d = ':' then return (seen ++ [c], d)
        else if isFlag d then readFlagsOn fuel d (seen ++ [c])
        else refuse (if isWordCharacter d && !isDecimalDigit d && d != '_' then .unknownFlag
          else .missingFlagEnd) 1
      | .escaped _ => refuse .missingFlagEnd 2

/-- The flag letters to switch off up to a colon. -/
def readFlagsOff (fuel : Nat) (c : Char) (seen : List Char) : ReadPattern (List Char) :=
  match fuel with
  | 0 => refuse .missingColon 0
  | fuel + 1 => do
    if c = 'a' || c = 'u' || c = 'L' then refuse .typeFlagOff 0
    match ← take with
    | none => refuse .missingColon 0
    | some (.plain d) =>
      if d = ':' then return seen ++ [c]
      else if isFlag d then readFlagsOff fuel d (seen ++ [c])
      else refuse (if isWordCharacter d && !isDecimalDigit d && d != '_' then .unknownFlag
        else .missingColon) 1
    | some (.escaped _) => refuse .missingColon 2

/-- The flags that a group begins with, `c` being the first character behind the question mark.
None when they hold for the whole expression, the reader then having them. -/
def readFlags (fuel : Nat) (c : Char) : ReadPattern (Option PatternFlags) := do
  let (on, last) ← if c = '-' then pure ([], '-') else readFlagsOn fuel c []
  let flags := on.foldl (fun f x => setFlag f x true) (← get).flags
  if last = ')' then
    modify fun r => { r with flags := flags }
    return none
  else
    let off ←
      if last = '-' then
        match ← take with
        | none => refuse .missingFlag 0
        | some (.plain d) =>
          if isFlag d then readFlagsOff fuel d []
          else refuse (if isWordCharacter d && !isDecimalDigit d && d != '_' then .unknownFlag
            else .missingFlag) 1
        | some (.escaped _) => refuse .missingFlag 2
      else pure []
    if on.any off.contains then refuse .flagOnAndOff 1
    return some (off.foldl (fun f x => setFlag f x false) flags)

/-- A name that may name a group: letters, digits and underscores, no digit first. -/
def isGroupName (name : String) : Bool :=
  match name.toList with
  | [] => false
  | c :: rest => isWordCharacter c && !isDecimalDigit c && rest.all isWordCharacter

/-- Refuses a name that cannot name a group; the terminator has been read. -/
def checkGroupName (name : String) : ReadPattern Unit := do
  if !isGroupName name then refuse (.badGroupName name) (name.length + 1)

/-- Opens a group and gives its number. -/
def openGroup (name : Option String) : ReadPattern Nat := do
  let r ← get
  let number := r.widths.length
  match name with
  | none => set { r with widths := r.widths ++ [none] }
  | some name =>
    match r.names.find? (·.1 = name) with
    | some (_, earlier) => refuse (.redefinedGroup name number earlier) (name.length + 1)
    | none =>
      set { r with widths := r.widths ++ [none], names := r.names ++ [(name, number)] }
  return number

/-- Closes a group with what it holds. -/
def closeGroup (number : Nat) (body : Pattern) : ReadPattern Unit :=
  modify fun r => { r with widths := r.widths.set number (some body.width) }

/-- A reference to a group, with the width of the group. -/
def backReference (number : Nat) : ReadPattern Pattern := do
  let r ← get
  return .back r.flags number (((r.widths[number]?).getD none).getD (0, 0))

/-- A reference to a group by the name in front of the parenthesis. -/
def readNamedReference (fuel : Nat) : ReadPattern Pattern := do
  let name ← takeName fuel ')' "group name" ""
  checkGroupName name
  match (← get).names.find? (·.1 = name) with
  | none => refuse (.unknownGroupName name) (name.length + 1)
  | some (_, number) =>
    if (((← get).widths[number]?).getD none).isNone then
      refuse .openGroupReference (name.length + 1)
    checkLookBehind number
    backReference number

/-- The group that a condition asks for. -/
def readCondition (fuel : Nat) : ReadPattern Nat := do
  let name ← takeName fuel ')' "group name" ""
  let number ←
    if isGroupName name then
      match (← get).names.find? (·.1 = name) with
      | none => refuse (.unknownGroupName name) (name.length + 1)
      | some (_, number) => pure number
    else
      match name.toNat?.filter fun _ => name.length ≤ Number.digitLimit with
      | none => refuse (.badGroupName name) (name.length + 1)
      | some 0 => refuse .badGroupNumber (name.length + 1)
      | some number =>
        let position ← tell
        let r ← get
        if r.asked.all (·.1 ≠ number) then
          set { r with asked := r.asked ++ [(number, position - name.length - 1)] }
        pure number
  checkLookBehind number
  return number

/-- What kind of group begins behind an opening parenthesis. -/
inductive GroupKind where
  | plain (name : Option String)
  | transparent
  | atomic
  | flagged (flags : PatternFlags)
  | look (ahead negated : Bool)
  | condition (number : Nat)
  | whole (part : Option Pattern)

/-- Skips a comment up to its closing parenthesis; `start` is the position of the opening one. -/
def skipComment (fuel start : Nat) : ReadPattern Unit :=
  match fuel with
  | 0 => refuse .unterminatedComment 0
  | fuel + 1 => do
    if (← peek).isNone then throw ⟨.unterminatedComment, some start⟩
    if (← take) = some (.plain ')') then return
    else skipComment fuel start

/-- The kind of the group whose opening parenthesis stands at `start`. Flags for the whole
expression are allowed only where `atFront` holds. -/
def readGroupKind (fuel start : Nat) (atFront : Bool) : ReadPattern GroupKind := do
  if !(← accept '?') then return .plain none
  match ← take with
  | none => refuse .unexpectedEnd 0
  | some (.escaped c) => refuse (.unknownExtension (String.ofList ['?', '\\', c])) 3
  | some (.plain 'P') =>
    if ← accept '<' then
      let name ← takeName fuel '>' "group name" ""
      checkGroupName name
      return .plain (some name)
    else if ← accept '=' then return .whole (some (← readNamedReference fuel))
    else
      match ← take with
      | none => refuse .unexpectedEnd 0
      | some token => refuse (.unknownExtension ("?P" ++ token.text)) (token.size + 2)
  | some (.plain ':') => return .transparent
  | some (.plain '#') =>
    skipComment fuel start
    return .whole none
  | some (.plain '=') => return .look true false
  | some (.plain '!') => return .look true true
  | some (.plain '<') =>
    match ← take with
    | none => refuse .unexpectedEnd 0
    | some (.plain '=') => return .look false false
    | some (.plain '!') => return .look false true
    | some token => refuse (.unknownExtension ("?<" ++ token.text)) (token.size + 2)
  | some (.plain '(') => return .condition (← readCondition fuel)
  | some (.plain '>') => return .atomic
  | some (.plain c) =>
    if isFlag c || c = '-' then
      match ← readFlags fuel c with
      | some flags => return .flagged flags
      | none =>
        if !atFront then throw ⟨.flagsNotAtStart, some start⟩
        return .whole none
    else refuse (.unknownExtension (String.ofList ['?', c])) 2

/-- Takes the parenthesis that closes the group opened at `start`. -/
def closeParenthesis (start : Nat) : ReadPattern Unit := do
  if !(← accept ')') then throw ⟨.unterminatedGroup, some start⟩

/-- The mode that a mark behind a quantifier chooses. -/
def repeatMode : ReadPattern RepeatMode := do
  if ← accept '?' then return .reluctant
  if ← accept '+' then return .possessive
  return .greedy

/-- The repetition of the last of the parts read before; `here` is the position behind the
quantifier's first character. -/
def repeatLast (done : List Pattern) (here least : Nat) (most : Option Nat) :
    ReadPattern (List Pattern) := do
  match done with
  | [] | .anchor .. :: _ => throw ⟨.nothingToRepeat, some (here - 1)⟩
  | .repeated .. :: _ => throw ⟨.multipleRepeat, some (here - 1)⟩
  | last :: before =>
    let mode ← repeatMode
    return .repeated least most mode last :: before

/-- Skips to the end of the line. -/
def skipLine (fuel : Nat) : ReadPattern Unit :=
  match fuel with
  | 0 => return
  | fuel + 1 => do
    match ← take with
    | none | some (.plain '\n') => return
    | some _ => skipLine fuel

/-- The part that an escape outside a set stands for. -/
def escapePart (flags : PatternFlags) : Escape → ReadPattern Pattern
  | .code value => return .single flags value
  | .category kind negated => return .oneOf flags false [.category kind negated]
  | .anchor place => return .anchor flags place
  | .back number => backReference number

/-- The part that a character set stands for. -/
def setPart (flags : PatternFlags) (negated : Bool) (items : List SetItem) : Pattern :=
  match negated, items with
  | false, [.single code] => .single flags code
  | _, _ => .oneOf flags negated items

/-- Runs a reading with other flags and puts the old ones back. -/
def withFlags {α : Type} (flags : PatternFlags) (read : ReadPattern α) : ReadPattern α := do
  let old := (← get).flags
  modify fun r => { r with flags := flags }
  let result ← read
  modify fun r => { r with flags := old }
  return result

mutual

/-- Alternatives up to the end or a closing parenthesis. -/
def readAlternatives (fuel : Nat) (top : Bool) (done : List Pattern) : ReadPattern Pattern :=
  match fuel with
  | 0 => refuse .unexpectedEnd 0
  | fuel + 1 => do
    let branch ← readParts fuel (top && done.isEmpty) []
    if ← accept '|' then readAlternatives fuel top (branch :: done)
    else if done.isEmpty then return branch
    else return .alternatives (branch :: done).reverse

/-- Parts up to the end, a bar or a closing parenthesis; `done` holds the parts read before, the
last first. -/
def readParts (fuel : Nat) (front : Bool) (done : List Pattern) : ReadPattern Pattern :=
  match fuel with
  | 0 => refuse .unexpectedEnd 0
  | fuel + 1 => do
    let flags := (← get).flags
    match ← peek with
    | none | some (.plain '|') | some (.plain ')') => return .sequence done.reverse
    | some (.escaped c) =>
      advance
      let part ← escapePart flags (← readEscape fuel c)
      readParts fuel front (part :: done)
    | some (.plain c) =>
      advance
      if flags.verbose && (c = ' ' || (9 ≤ c.toNat && c.toNat ≤ 13)) then
        readParts fuel front done
      else if flags.verbose && c = '#' then
        skipLine fuel
        readParts fuel front done
      else
        match c with
        | '[' =>
          let start := (← tell) - 1
          let negated ← accept '^'
          let items ← readSet fuel start []
          readParts fuel front (setPart flags negated items.eraseDups :: done)
        | '.' => readParts fuel front (.anyCharacter flags :: done)
        | '^' => readParts fuel front (.anchor flags .lineStart :: done)
        | '$' => readParts fuel front (.anchor flags .lineEnd :: done)
        | '?' => readParts fuel front (← repeatLast done (← tell) 0 (some 1))
        | '*' => readParts fuel front (← repeatLast done (← tell) 0 none)
        | '+' => readParts fuel front (← repeatLast done (← tell) 1 none)
        | '\x7b' =>
          if (← peek) = some (.plain '\x7d') then
            readParts fuel front (.single flags c.toNat :: done)
          else
            let before ← get
            let here ← tell
            match ← readBounds fuel with
            | none =>
              set before
              readParts fuel front (.single flags c.toNat :: done)
            | some (low, high) =>
              let least ← readTimes low
              let most ← if high.isEmpty then pure none else some <$> readTimes high
              if most.any (· < least) then throw ⟨.minimumAboveMaximum, some here⟩
              readParts fuel front (← repeatLast done here least most)
        | '(' =>
          let start := (← tell) - 1
          match ← readGroup fuel start (front && done.isEmpty) with
          | none => readParts fuel front done
          | some part => readParts fuel front (part :: done)
        | _ => readParts fuel front (.single flags c.toNat :: done)

/-- The group whose opening parenthesis stands at `start`, none when it adds no part. -/
def readGroup (fuel start : Nat) (atFront : Bool) : ReadPattern (Option Pattern) :=
  match fuel with
  | 0 => refuse .unexpectedEnd 0
  | fuel + 1 => do
    let flags := (← get).flags
    match ← readGroupKind fuel start atFront with
    | .whole part => return part
    | .plain name =>
      let number ← openGroup name
      let body ← withFlags flags (readAlternatives fuel false [])
      closeParenthesis start
      closeGroup number body
      return some (.group (some number) body)
    | .transparent =>
      let body ← withFlags flags (readAlternatives fuel false [])
      closeParenthesis start
      return some (.group none body)
    | .atomic =>
      let body ← withFlags flags (readAlternatives fuel false [])
      closeParenthesis start
      return some (.atomic body)
    | .flagged inner =>
      let body ← withFlags inner (readAlternatives fuel false [])
      closeParenthesis start
      return some (.group none body)
    | .look ahead negated =>
      let outer := (← get).behindFrom
      if !ahead && outer.isNone then
        modify fun r => { r with behindFrom := some r.widths.length }
      let body ← withFlags flags (readAlternatives fuel false [])
      if !ahead && outer.isNone then modify fun r => { r with behindFrom := none }
      closeParenthesis start
      return some (.look ahead negated body)
    | .condition number =>
      let whenSet ← readParts fuel false []
      let otherwise ←
        if ← accept '|' then
          let part ← readParts fuel false []
          if (← peek) = some (.plain '|') then refuse .threeBranches 0
          pure part
        else pure (.sequence [])
      closeParenthesis start
      return some (.conditional number whenSet otherwise)

end

/-- Reads a whole expression. -/
def readAll (fuel : Nat) : ReadPattern Pattern := do
  advance
  let body ← readAlternatives fuel true []
  if (← peek).isSome then refuse .unbalanced 0
  let r ← get
  match r.asked.find? fun (number, _) => r.widths.length ≤ number with
  | some (number, position) => throw ⟨.invalidReference number, some position⟩
  | none => return body

/-- The expression that a text denotes. -/
def parse (text : List Char) : Except PatternFault Pattern := do
  let start : PatternReader :=
    { rest := text, index := 0, next := none, flags := {}, names := [], widths := [none],
      behindFrom := none, asked := [] }
  let (body, _) ← (readAll (4 * text.length + 8)).run start
  if body.looksBehindByWidth then return body
  else throw ⟨.variableLookBehind, none⟩

/-- Why a text cannot be used as a regular expression. Which names characters have is not said here:
a text that asks for a character by its name is at fault. -/
def fault? (text : String) : Option PatternFault :=
  match parse text.toList with
  | .ok _ => none
  | .error fault => some fault

end Pattern

end HttpContract
