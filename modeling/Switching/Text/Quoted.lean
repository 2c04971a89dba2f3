import Switching.Text.Printable

/-!
Quoted text, as it stands in messages: between single quotes, or between double quotes when the
text holds a single quote and no double one. The quote in use, the backslash and every character
without a visible form are escaped.
-/
namespace Switching

def hexDigit (n : Nat) : Char := Nat.digitChar (n % 16)

def hexText : Nat → Nat → List Char
  | 0, _ => []
  | width + 1, n => hexText width (n / 16) ++ [hexDigit n]

namespace Quoted

def quoteFor (cs : List Char) : Char :=
  if cs.contains '\'' && !cs.contains '"' then '"' else '\''

/-- A character without a visible form, by the shortest of the three numeric escapes. -/
def numericEscape (c : Char) : List Char :=
  if c.toNat ≤ 0xFF then '\\' :: 'x' :: hexText 2 c.toNat
  else if c.toNat ≤ 0xFFFF then '\\' :: 'u' :: hexText 4 c.toNat
  else '\\' :: 'U' :: hexText 8 c.toNat

def escape (quote c : Char) : List Char :=
  if c = quote || c = '\\' then ['\\', c]
  else if c = '\t' then ['\\', 't']
  else if c = '\n' then ['\\', 'n']
  else if c = '\r' then ['\\', 'r']
  else if isPrintable c then [c]
  else numericEscape c

end Quoted

def quoted (s : String) : String :=
  let quote := Quoted.quoteFor s.toList
  String.ofList (quote :: s.toList.flatMap (Quoted.escape quote) ++ [quote])

def quotedList (ss : List String) : String :=
  "[" ++ ", ".intercalate (ss.map quoted) ++ "]"

end Switching
