import Switching.Formula.Fold

/-!
Fresh numbers for the nodes of a formula, consecutive in post-order.
-/
namespace Switching

namespace Formula

def takeNumber : StateM Int Int := fun next => (next, next + 1)

def renumberSteps : Steps (StateM Int) Formula where
  onVariable name _ := do return var name (← takeNumber)
  onConstant b _ := do return const b (← takeNumber)
  onNot _ _ operand := do return not operand (← takeNumber)
  onGate k _ _ _ left right := do return gate k left right (← takeNumber)

/-- The formula with the numbers `start`, `start + 1` and so on in post-order. -/
def renumberFrom (start : Int) (f : Formula) : Formula := ((foldM renumberSteps f).run start).1

def maxId (f : Formula) : Int := f.nodes.foldl (fun m g => max m g.id) f.id

def renumber (f : Formula) : Formula := f.renumberFrom (f.maxId + 1)

end Formula

end Switching
