import Switching.Minimization

/-!
The listing of the prime implicants of a minimization: the shortest products first, each with a star
if it was chosen.
-/
namespace Switching

namespace Minimization

/-- Fewer literals come first, then the order of the patterns as text. -/
def listedBefore (i j : Implicant) : Bool :=
  i.literals < j.literals || (i.literals == j.literals && !(j.pattern.text < i.pattern.text))

def primeLine (m : Minimization) (i : Implicant) : String :=
  " " ++ (if m.chosen.any (·.agrees i) then "*" else " ") ++ " " ++
    padRight 10 (i.term m.names) ++ " " ++ i.pattern.text ++ "  (" ++ toString i.literals ++
    " lit) -> " ++ numberList i.minterms

def primeListing (m : Minimization) : String :=
  lines <|
    ("Prime implicants (" ++ toString m.primes.length ++ "):") ::
      (m.primes.mergeSort listedBefore).map m.primeLine

end Minimization

end Switching
