import HttpContract.Json.Reader
import HttpContract.Text.Encoding

/-!
# JSON payloads

A payload is a text or a byte sequence. The encoding of bytes is told by a byte order mark or by
where the zero bytes stand among the first four.
-/

namespace HttpContract

/-- What a request carries as its body. -/
inductive Payload where
  | text (value : String)
  | bytes (value : List UInt8)
  deriving Repr

/-- Why a payload is not read: it is no JSON text, or there is no room for what is in it. -/
inductive UnreadPayload where
  | malformed (why : String)
  | tooNested (form : Nesting)
  deriving DecidableEq, Repr

namespace Payload

/-- Nothing to read. -/
def isEmpty : Payload → Bool
  | .text s => s.isEmpty
  | .bytes data => data.isEmpty

/-- The encoding of JSON bytes and how many bytes its mark takes. A mark of UTF-8 is not counted
in positions. -/
def encodingOf (data : List UInt8) : TextEncoding × Nat :=
  match data with
  | 0x00 :: 0x00 :: 0xFE :: 0xFF :: _ => (.utf32 .big, 4)
  | 0xFF :: 0xFE :: 0x00 :: 0x00 :: _ => (.utf32 .little, 4)
  | 0xFE :: 0xFF :: _ => (.utf16 .big, 2)
  | 0xFF :: 0xFE :: _ => (.utf16 .little, 2)
  | 0xEF :: 0xBB :: 0xBF :: _ => (.utf8, 3)
  | a :: b :: c :: d :: _ =>
    if a == 0 then (if b == 0 then .utf32 .big else .utf16 .big, 0)
    else if b == 0 then (if c == 0 && d == 0 then .utf32 .little else .utf16 .little, 0)
    else (.utf8, 0)
  | [a, b] =>
    if a == 0 then (.utf16 .big, 0)
    else if b == 0 then (.utf16 .little, 0)
    else (.utf8, 0)
  | _ => (.utf8, 0)

/-- The text of JSON bytes. -/
def decodeBytes (data : List UInt8) : Except DecodingFault (List Char) :=
  let (encoding, mark) := encodingOf data
  let start := if encoding = .utf8 then 0 else mark
  encoding.decode start (data.drop mark)

/-- The JSON value of a text, or why it is not read. -/
def readText (room : Nat) (cs : List Char) : Except UnreadPayload Json :=
  match Json.read room cs with
  | .ok j => .ok j
  | .error (.tooNested form) => .error (.tooNested form)
  | .error fault => .error (.malformed (fault.message cs))

/-- The JSON value of a payload, or why it is not read. -/
def readJson (room : Nat) : Payload → Except UnreadPayload Json
  | .text s => readText room s.toList
  | .bytes data =>
    match decodeBytes data with
    | .error fault => .error (.malformed fault.message)
    | .ok cs => readText room cs

end Payload

end HttpContract
