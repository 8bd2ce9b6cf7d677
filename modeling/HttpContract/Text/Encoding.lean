import HttpContract.Text.Quoted

/-!
# Encodings of texts

Reading a byte sequence as UTF-8, UTF-16 or UTF-32. A strict reading names the bytes it cannot
read; a lenient reading of UTF-8 puts the replacement character in their place.
-/

namespace HttpContract

/-- A byte order. -/
inductive ByteOrder where
  | big
  | little
  deriving DecidableEq, Repr

/-- An encoding of characters as bytes. -/
inductive TextEncoding where
  | utf8
  | utf16 (order : ByteOrder)
  | utf32 (order : ByteOrder)
  deriving DecidableEq, Repr

/-- Why bytes cannot be read. -/
inductive DecodingProblem where
  | invalidStart
  | invalidContinuation
  | unexpectedEnd
  | truncated
  | outOfRange
  deriving DecidableEq, Repr

/-- The wording of a problem. -/
def DecodingProblem.message : DecodingProblem → String
  | .invalidStart => "invalid start byte"
  | .invalidContinuation => "invalid continuation byte"
  | .unexpectedEnd => "unexpected end of data"
  | .truncated => "truncated data"
  | .outOfRange => "code point not in range(0x110000)"

/-- Bytes that cannot be read: where they start, how many there are, and the first of them. -/
structure DecodingFault where
  encoding : TextEncoding
  problem : DecodingProblem
  position : Nat
  width : Nat
  byte : UInt8
  deriving DecidableEq, Repr

/-- The name of an encoding. -/
def TextEncoding.name : TextEncoding → String
  | .utf8 => "utf-8"
  | .utf16 .big => "utf-16-be"
  | .utf16 .little => "utf-16-le"
  | .utf32 .big => "utf-32-be"
  | .utf32 .little => "utf-32-le"

/-- The wording of a decoding fault. -/
def DecodingFault.message (f : DecodingFault) : String :=
  let place :=
    if f.width = 1 then
      s!"byte 0x{String.ofList (Hexadecimal.padded 2 f.byte.toNat)} in position {f.position}"
    else s!"bytes in position {f.position}-{f.position + f.width - 1}"
  s!"'{f.encoding.name}' codec can't decode {place}: {f.problem.message}"

/-- The replacement character. -/
def replacementCharacter : Char := '\ufffd'

/-- The character with a code, the replacement character for a surrogate. -/
def charOrReplacement (code : Nat) : Char :=
  if h : code.isValidChar then Char.ofNatAux code h else replacementCharacter

namespace Utf8

/-- A continuation byte. -/
def isTail (b : UInt8) : Bool := 0x80 ≤ b && b < 0xC0

/-- What stands at the front of UTF-8 bytes: a code with its width, or a problem with the number
of bytes it spoils. -/
inductive Front where
  | code (value width : Nat)
  | problem (kind : DecodingProblem) (width : Nat)

/-- The bits that a continuation byte carries. -/
def tailBits (b : UInt8) : Nat := b.toNat % 64

/-- The second bytes allowed behind a lead byte. -/
def allowsSecond (lead second : UInt8) : Bool :=
  isTail second &&
    (if lead == 0xE0 then 0xA0 ≤ second
    else if lead == 0xF0 then 0x90 ≤ second
    else if lead == 0xF4 then second < 0x90
    else true)

/-- Whether three bytes encode a surrogate. -/
def isSurrogate (lead second third : UInt8) : Bool :=
  lead == 0xED && 0xA0 ≤ second && isTail second && isTail third

/-- Reads the front of a nonempty byte sequence. -/
def front (lead : UInt8) (rest : List UInt8) : Front :=
  if lead < 0x80 then .code lead.toNat 1
  else if lead < 0xC2 || 0xF5 ≤ lead then .problem .invalidStart 1
  else if lead < 0xE0 then
    match rest with
    | [] => .problem .unexpectedEnd 1
    | b :: _ =>
      if isTail b then .code (lead.toNat % 32 * 64 + tailBits b) 2
      else .problem .invalidContinuation 1
  else if lead < 0xF0 then
    let allows (b : UInt8) : Bool := allowsSecond lead b && !(lead == 0xED && 0xA0 ≤ b)
    match rest with
    | [] => .problem .unexpectedEnd 1
    | [b] => if allows b then .problem .unexpectedEnd 2 else .problem .invalidContinuation 1
    | b :: c :: _ =>
      if !allows b then .problem .invalidContinuation 1
      else if !isTail c then .problem .invalidContinuation 2
      else .code (lead.toNat % 16 * 4096 + tailBits b * 64 + tailBits c) 3
  else
    match rest with
    | [] => .problem .unexpectedEnd 1
    | [b] => if allowsSecond lead b then .problem .unexpectedEnd 2
      else .problem .invalidContinuation 1
    | [b, c] =>
      if !allowsSecond lead b then .problem .invalidContinuation 1
      else if !isTail c then .problem .invalidContinuation 2
      else .problem .unexpectedEnd 3
    | b :: c :: d :: _ =>
      if !allowsSecond lead b then .problem .invalidContinuation 1
      else if !isTail c then .problem .invalidContinuation 2
      else if !isTail d then .problem .invalidContinuation 3
      else
        .code (lead.toNat % 8 * 262144 + tailBits b * 4096 + tailBits c * 64 + tailBits d) 4

/-- The characters of UTF-8 bytes; `skip` bytes belong to a character read before. An encoded
surrogate is read as the replacement character. -/
def decodeFrom (position skip : Nat) : List UInt8 → Except DecodingFault (List Char)
  | [] => .ok []
  | lead :: rest =>
    match skip with
    | skip + 1 => decodeFrom (position + 1) skip rest
    | 0 =>
      match front lead rest with
      | .code value width => do
        let cs ← decodeFrom (position + 1) (width - 1) rest
        return charOrReplacement value :: cs
      | .problem kind width =>
        match rest with
        | b :: c :: _ =>
          if isSurrogate lead b c then do
            let cs ← decodeFrom (position + 1) 2 rest
            return replacementCharacter :: cs
          else .error ⟨.utf8, kind, position, width, lead⟩
        | _ => .error ⟨.utf8, kind, position, width, lead⟩

/-- The characters of UTF-8 bytes, with the replacement character for each unreadable part. -/
def decodeLenient (skip : Nat) : List UInt8 → List Char
  | [] => []
  | lead :: rest =>
    match skip with
    | skip + 1 => decodeLenient skip rest
    | 0 =>
      match front lead rest with
      | .code value width => charOrReplacement value :: decodeLenient (width - 1) rest
      | .problem _ width => replacementCharacter :: decodeLenient (width - 1) rest

end Utf8

/-- The number that bytes write in a byte order. -/
def ByteOrder.value (order : ByteOrder) (bytes : List UInt8) : Nat :=
  let big := match order with
    | .big => bytes
    | .little => bytes.reverse
  big.foldl (fun n b => 256 * n + b.toNat) 0

/-- The code of a surrogate pair: a high unit and, at the front of the bytes, the low one. -/
def pairCode? (order : ByteOrder) (high : Nat) (rest : List UInt8) : Option Nat :=
  match rest with
  | c :: d :: _ =>
    let low := order.value [c, d]
    if 0xD800 ≤ high ∧ high < 0xDC00 ∧ 0xDC00 ≤ low ∧ low < 0xE000 then
      some (0x10000 + (high - 0xD800) * 0x400 + (low - 0xDC00))
    else none
  | _ => none

/-- The characters of UTF-16 bytes; `skip` bytes belong to a character read before. A surrogate
without its partner is read as the replacement character. -/
def decodeUtf16 (order : ByteOrder) (position skip : Nat) :
    List UInt8 → Except DecodingFault (List Char)
  | [] => .ok []
  | a :: rest =>
    match skip, rest with
    | skip + 1, _ => decodeUtf16 order (position + 1) skip rest
    | 0, [] => .error ⟨.utf16 order, .truncated, position, 1, a⟩
    | 0, b :: more => do
      let unit := order.value [a, b]
      match pairCode? order unit more with
      | some code =>
        let cs ← decodeUtf16 order (position + 1) 3 rest
        return charOrReplacement code :: cs
      | none =>
        let cs ← decodeUtf16 order (position + 1) 1 rest
        return charOrReplacement unit :: cs

/-- The characters of UTF-32 bytes. -/
def decodeUtf32 (order : ByteOrder) (position : Nat) (bytes : List UInt8) :
    Except DecodingFault (List Char) :=
  match bytes with
  | [] => .ok []
  | a :: b :: c :: d :: rest =>
    let code := order.value [a, b, c, d]
    if 0x110000 ≤ code then .error ⟨.utf32 order, .outOfRange, position, 4, a⟩
    else do
      let cs ← decodeUtf32 order (position + 4) rest
      return charOrReplacement code :: cs
  | a :: rest => .error ⟨.utf32 order, .truncated, position, rest.length + 1, a⟩

/-- The strict reading of bytes in an encoding, counted from a position. -/
def TextEncoding.decode (encoding : TextEncoding) (position : Nat) (bytes : List UInt8) :
    Except DecodingFault (List Char) :=
  match encoding with
  | .utf8 => Utf8.decodeFrom position 0 bytes
  | .utf16 order => decodeUtf16 order position 0 bytes
  | .utf32 order => decodeUtf32 order position bytes

end HttpContract
