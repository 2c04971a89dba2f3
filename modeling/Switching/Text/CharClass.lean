/-!
Classes of characters as lists of code-point ranges, and the blanks: the characters that separate
tokens and may surround a name or a value.
-/
namespace Switching

abbrev CharClass := List (Nat × Nat)

namespace CharClass

def contains (k : CharClass) (c : Char) : Bool :=
  k.any fun range => range.1 ≤ c.toNat && c.toNat ≤ range.2

/-- The tabulators and line ends, the information separators, the space, and the wide, thin and
unbreakable spaces. -/
def blank : CharClass :=
  [(0x09, 0x0D), (0x1C, 0x20), (0x85, 0x85), (0xA0, 0xA0), (0x1680, 0x1680), (0x2000, 0x200A),
    (0x2028, 0x2029), (0x202F, 0x202F), (0x205F, 0x205F), (0x3000, 0x3000)]

end CharClass

def isBlank (c : Char) : Bool := CharClass.blank.contains c

def trim (cs : List Char) : List Char :=
  ((cs.dropWhile isBlank).reverse.dropWhile isBlank).reverse

end Switching
