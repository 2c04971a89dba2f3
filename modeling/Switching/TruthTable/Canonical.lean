import Switching.TruthTable

/-!
The canonical forms of a table: the sum of its minterms and the product of its maxterms, with every
variable in every term.
-/
namespace Switching

namespace TruthTable

def literalText (name : String) (positive : Bool) : String :=
  if positive then name else name ++ "'"

def mintermText (names : List String) (r : Row) : String :=
  String.join (names.map fun v => literalText v (r.bit v))

def maxtermText (names : List String) (r : Row) : String :=
  "(" ++ " + ".intercalate (names.map fun v => literalText v !(r.bit v)) ++ ")"

/-- The canonical sum of products, such as `A'B + AB'`. -/
def sumOfProducts (t : TruthTable) : String :=
  match t.constant? with
  | some b => bitText b
  | none => " + ".intercalate ((t.rows.filter (·.output)).map (mintermText t.names))

/-- The canonical product of sums, such as `(A + B)(A' + B')`. -/
def productOfSums (t : TruthTable) : String :=
  match t.constant? with
  | some b => bitText b
  | none => String.join ((t.rows.filter (!·.output)).map (maxtermText t.names))

end TruthTable

end Switching
