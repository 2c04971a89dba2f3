import Switching.Formula.Evaluate
import Switching.Proofs.Fold
import Switching.Proofs.Names

/-! The value of a formula for values of its variables, and that evaluation finds it whenever the
assignment has an entry for every variable. -/
namespace Switching

namespace Formula

variable {f : Formula} {v w : String → Bool}

def value (v : String → Bool) : Formula → Bool
  | var n _ => v n
  | const b _ => b
  | not f _ => !f.value v
  | gate k l r _ => k.apply (l.value v) (r.value v)

theorem value_congr (same : ∀ x ∈ f.names, v x = w x) : f.value v = f.value w := by
  induction f with
  | var n i => exact same n (by simp)
  | const b i => rfl
  | not f i ih =>
    rw [value, value, ih fun x hx => same x (by simp [hx])]
  | gate k l r i left right =>
    rw [value, value, left fun x hx => same x (by simp [hx]),
      right fun x hx => same x (by simp [hx])]

theorem evaluate_eq {a : Assignment} (bound : ∀ x ∈ f.names, a.value? x = some (v x)) :
    f.evaluate a = .ok (f.value v) := by
  rw [evaluate, foldM_eq_combine]
  induction f with
  | var n i =>
    have found := bound n (by simp)
    simp only [combine, valueSteps, leafValue, found]
    rfl
  | const b i => rfl
  | not f i ih =>
    rw [combine, ih fun x hx => bound x (by simp [hx])]
    rfl
  | gate k l r i left right =>
    rw [combine, left fun x hx => bound x (by simp [hx]),
      right fun x hx => bound x (by simp [hx])]
    rfl

end Formula

end Switching
