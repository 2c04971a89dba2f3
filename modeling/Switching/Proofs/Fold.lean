import Switching.Formula.Fold

/-! The fold with its two lists is the recursion of the formula. -/
namespace Switching

namespace Formula

variable {m : Type → Type} [Monad m] {α : Type}

def combine (s : Steps m α) : Formula → m α
  | var n i => s.onVariable n i
  | const b i => s.onConstant b i
  | not f i => do
    let v ← f.combine s
    s.onNot f i v
  | gate k l r i => do
    let v ← l.combine s
    let w ← r.combine s
    s.onGate k l r i v w

variable [LawfulMonad m]

/-- Visiting a formula puts its value on the values at hand. -/
theorem runTasks_visit (s : Steps m α) (f : Formula) (work : List Task) (values : List α)
    (ready : Task.Ready (.visit f :: work) values.length) :
    runTasks s (.visit f :: work) values ready =
      f.combine s >>= fun v => runTasks s work (v :: values) ready.visited := by
  induction f generalizing work values with
  | var n i => rw [runTasks, combine]
  | const b i => rw [runTasks, combine]
  | not f i ih =>
    rw [runTasks, ih, combine, bind_assoc]
    refine bind_congr fun v => ?_
    rw [runTasks]
  | gate k l r i left right =>
    rw [runTasks, left, combine, bind_assoc]
    refine bind_congr fun v => ?_
    rw [right, bind_assoc]
    refine bind_congr fun w => ?_
    rw [runTasks]

theorem foldM_eq_combine (s : Steps m α) (f : Formula) : foldM s f = f.combine s := by
  rw [foldM, runTasks_visit]
  simp only [runTasks, bind_pure]

end Formula

end Switching
