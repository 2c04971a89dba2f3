import Switching.Formula.Fold
import Switching.Text.Layout

/-!
Formulas as text, with every gate between parentheses.
-/
namespace Switching

namespace Formula

structure Notation where
  negation : String
  gate : Gate → String

namespace Notation

def keywords : Notation := ⟨"NOT ", Gate.name⟩

def signs : Notation := ⟨"¬", Gate.sign⟩

end Notation

def renderSteps (n : Notation) : Steps Id String where
  onVariable name _ := name
  onConstant b _ := bitText b
  onNot _ _ operand := n.negation ++ operand
  onGate k _ _ _ left right := "(" ++ left ++ " " ++ n.gate k ++ " " ++ right ++ ")"

def render (n : Notation) (f : Formula) : String := fold (renderSteps n) f

def infixText (f : Formula) : String := f.render .keywords

def symbolText (f : Formula) : String := f.render .signs

end Formula

end Switching
