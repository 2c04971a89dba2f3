/-!
Documents: the structured values that requests carry and replies are made of, and their printed
form. The members of an object keep the order in which they were given.
-/
namespace Switching

/-- A structured value. A `decimal` is a number written with a fraction. -/
inductive Document
  | null
  | bool (value : Bool)
  | integer (value : Int)
  | decimal (mantissa : Int) (places : Nat)
  | text (value : String)
  | list (items : List Document)
  | object (members : List (String × Document))
  deriving Repr, Inhabited

namespace Document

def nat (n : Nat) : Document := integer n

def nats (ns : List Nat) : Document := list (ns.map nat)

def texts (ss : List String) : Document := list (ss.map text)

def bit (b : Bool) : Document := integer (if b then 1 else 0)

def ofOption (d? : Option Document) : Document := d?.getD null

inductive Alphabet
  /-- Everything outside the visible ASCII characters. -/
  | ascii
  /-- The control characters below the space. -/
  | full
  deriving DecidableEq, Repr

def unitEscape (u : Nat) : List Char :=
  '\\' :: 'u' :: [u / 4096, u / 256, u / 16, u].map fun d => Nat.digitChar (d % 16)

/-- A character as numeric escapes: two of them for a character above 16 bits. -/
def numericEscape (c : Char) : List Char :=
  if c.toNat < 0x10000 then unitEscape c.toNat
  else
    unitEscape (0xD800 + (c.toNat - 0x10000) / 0x400) ++
      unitEscape (0xDC00 + (c.toNat - 0x10000) % 0x400)

def Alphabet.allows : Alphabet → Char → Bool
  | .ascii, c => 0x20 ≤ c.toNat && c.toNat ≤ 0x7E
  | .full, c => 0x20 ≤ c.toNat

def escape (alphabet : Alphabet) (c : Char) : List Char :=
  if c = '"' || c = '\\' then ['\\', c]
  else if c = '\n' then ['\\', 'n']
  else if c = '\r' then ['\\', 'r']
  else if c = '\t' then ['\\', 't']
  else if c.toNat = 0x08 then ['\\', 'b']
  else if c.toNat = 0x0C then ['\\', 'f']
  else if alphabet.allows c then [c]
  else numericEscape c

def textForm (alphabet : Alphabet) (s : String) : String :=
  String.ofList ('"' :: s.toList.flatMap (escape alphabet) ++ ['"'])

def decimalForm (mantissa : Int) (places : Nat) : String :=
  let digits := toString mantissa.natAbs
  let padded := String.ofList (digits.toList.leftpad (places + 1) '0')
  let whole := padded.toList.take (padded.length - places)
  let fraction := padded.toList.drop (padded.length - places)
  (if mantissa < 0 then "-" else "") ++ String.ofList whole ++
    (if places = 0 then "" else "." ++ String.ofList fraction)

def newline (depth : Nat) : String :=
  String.ofList ('\n' :: List.replicate (2 * depth) ' ')

mutual

def form (alphabet : Alphabet) (depth : Nat) : Document → String
  | null => "null"
  | bool b => if b then "true" else "false"
  | integer n => toString n
  | decimal mantissa places => decimalForm mantissa places
  | text s => textForm alphabet s
  | list [] => "[]"
  | list (d :: ds) =>
    "[" ++ newline (depth + 1) ++ form alphabet (depth + 1) d ++
      itemsForm alphabet (depth + 1) ds ++ newline depth ++ "]"
  | object [] => "\x7b\x7d"
  | object ((key, d) :: ms) =>
    "\x7b" ++ newline (depth + 1) ++ textForm alphabet key ++ ": " ++ form alphabet (depth + 1) d ++
      membersForm alphabet (depth + 1) ms ++ newline depth ++ "\x7d"

def itemsForm (alphabet : Alphabet) (depth : Nat) : List Document → String
  | [] => ""
  | d :: ds => "," ++ newline depth ++ form alphabet depth d ++ itemsForm alphabet depth ds

def membersForm (alphabet : Alphabet) (depth : Nat) : List (String × Document) → String
  | [] => ""
  | (key, d) :: ms =>
    "," ++ newline depth ++ textForm alphabet key ++ ": " ++ form alphabet depth d ++
      membersForm alphabet depth ms

end

def print (alphabet : Alphabet) (d : Document) : String := form alphabet 0 d

end Document

end Switching
