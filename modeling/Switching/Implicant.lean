import Switching.Binary
import Switching.Formula
import Switching.OrderedSet

/-!
Implicants: product terms, written as patterns over the inputs. The first position of a pattern
belongs to the first variable, which is the most significant bit of a minterm. Over A, B and C the
pattern `1-0` is the product `AC'`, and it covers the minterms 4 and 6.
-/
namespace Switching

/-- What a product says about one input: it is 0, it is 1, or nothing. -/
inductive Trit
  | zero | one | dash
  deriving DecidableEq, Repr

namespace Trit

def toChar : Trit → Char
  | zero => '0'
  | one => '1'
  | dash => '-'

def ofChar? (c : Char) : Option Trit :=
  if c = '0' then some zero else if c = '1' then some one else if c = '-' then some dash else none

def ofBool : Bool → Trit
  | false => zero
  | true => one

def admits : Trit → Bool → Bool
  | zero, b => !b
  | one, b => b
  | dash, _ => true

def isDash (t : Trit) : Bool := t == dash

end Trit

abbrev Pattern := List Trit

namespace Pattern

def text (p : Pattern) : String := String.ofList (p.map Trit.toChar)

def ofText (s : String) : Pattern := s.toList.filterMap Trit.ofChar?

def ones (p : Pattern) : Nat := p.count .one

def zeros (p : Pattern) : Nat := p.count .zero

def literals (p : Pattern) : Nat := p.countP (!·.isDash)

/-- Every position admits the digit at the same place from the left; what is left over of the
pattern or of the digits is not compared. -/
def fits : Pattern → List Bool → Bool
  | t :: ts, b :: bs => t.admits b && fits ts bs
  | _, _ => true

def covers (p : Pattern) (m : Nat) : Bool := p.fits (binaryField p.length m)

/-- Two patterns that differ in one position only, and in none of them by a dash, join to one with
a dash in that position. -/
def merge? : Pattern → Pattern → Option Pattern
  | t :: ts, u :: us =>
    if t = u then (merge? ts us).map (t :: ·)
    else if t.isDash || u.isDash then none
    else if ts = us then some (.dash :: ts) else none
  | _, _ => none

def literalsOver (p : Pattern) (names : List String) : List (String × Bool) :=
  (names.zip p).filterMap fun
    | (name, .one) => some (name, true)
    | (name, .zero) => some (name, false)
    | (_, .dash) => none

end Pattern

/-- A product term with the minterms it was built from. -/
structure Implicant where
  pattern : Pattern
  minterms : List Nat
  isPrime : Bool := false
  deriving DecidableEq, Repr

namespace Implicant

def ofMinterm (width m : Nat) : Implicant :=
  { pattern := (binaryField width m).map Trit.ofBool, minterms := [m] }

def covers (i : Implicant) (m : Nat) : Bool := i.pattern.covers m

def literals (i : Implicant) : Nat := i.pattern.literals

def agrees (i j : Implicant) : Bool := i.pattern == j.pattern

def merge? (i j : Implicant) : Option Implicant :=
  (i.pattern.merge? j.pattern).map fun p =>
    { pattern := p, minterms := orderedSet (i.minterms ++ j.minterms) }

/-- The product as text: a name for an input that has to be 1, a name with a prime for one that has
to be 0, and `1` for the product that depends on nothing. -/
def term (i : Implicant) (names : List String) : String :=
  match i.pattern.literalsOver names with
  | [] => "1"
  | ls => String.join (ls.map fun l => if l.2 then l.1 else l.1 ++ "'")

def sumText (is : List Implicant) (names : List String) : String :=
  match is with
  | [] => "0"
  | is => " + ".intercalate (is.map (·.term names))

def sumCovers (is : List Implicant) (m : Nat) : Bool := is.any (·.covers m)

def describe (i : Implicant) : String :=
  "Implicant(" ++ i.pattern.text ++ ", " ++ numberList i.minterms ++ ")"

def literalFormulas (i : Implicant) (names : List String) : List Formula :=
  (i.pattern.literalsOver names).map fun l =>
    if l.2 then .var l.1 0 else .not (.var l.1 0) 0

/-- Formulas joined by one gate, leaning to the left; no formula at all is a constant. -/
def joined (k : Gate) (ifNone : Bool) : List Formula → Formula
  | [] => .const ifNone 0
  | f :: fs => fs.foldl (fun g h => .gate k g h 0) f

def toFormula (i : Implicant) (names : List String) : Formula :=
  joined .and true (i.literalFormulas names)

def sumFormula (is : List Implicant) (names : List String) : Formula :=
  joined .or false (is.map (·.toFormula names))

/-- The gates of a sum of products as a circuit of two levels: an inverter for every negated
literal, and gates with two inputs. -/
def sumGates (is : List Implicant) : Nat :=
  (is.length - 1) + total (is.map fun i => (i.literals - 1) + i.pattern.zeros)

/-- The gate inputs that a product takes: one for each of its literals if there is more than one,
and one at the gate that adds it to the sum. Complements are free. -/
def price (i : Implicant) : Nat := (if 2 ≤ i.literals then i.literals else 0) + 1

def sumPrice (is : List Implicant) : Nat := total (is.map price)

end Implicant

end Switching
