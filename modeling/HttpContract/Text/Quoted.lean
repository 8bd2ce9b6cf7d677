import HttpContract.Text.Hexadecimal
import HttpContract.Text.Printable

/-!
# Quoted texts

How a text is shown in a message: between single quotes, or between double quotes when it holds
a single quote and no double one. Characters that cannot be printed are shown by their code.
-/

namespace HttpContract

namespace Quoted

/-- One character between quotes of the given kind. -/
def escape (quote c : Char) : List Char :=
  if c = quote || c = '\\' then ['\\', c]
  else if c = '\n' then ['\\', 'n']
  else if c = '\r' then ['\\', 'r']
  else if c = '\t' then ['\\', 't']
  else if isPrintable c then [c]
  else
    let code := c.toNat
    if code < 0x100 then '\\' :: 'x' :: Hexadecimal.padded 2 code
    else if code < 0x10000 then '\\' :: 'u' :: Hexadecimal.padded 4 code
    else '\\' :: 'U' :: Hexadecimal.padded 8 code

/-- The quote that surrounds a text. -/
def quoteFor (cs : List Char) : Char :=
  if cs.contains '\'' && !cs.contains '"' then '"' else '\''

end Quoted

/-- A text between quotes. -/
def quoted (s : String) : String :=
  let cs := s.toList
  let quote := Quoted.quoteFor cs
  String.ofList (quote :: cs.flatMap (Quoted.escape quote) ++ [quote])

end HttpContract
