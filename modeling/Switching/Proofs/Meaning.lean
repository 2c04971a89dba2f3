import Switching.Proofs.Entries
import Switching.Proofs.Leaves

/-! What a formula says of the propositions that its variables stand for. Evaluation decides it if
every variable is bound; if not, it names the first leaf from the left that is unbound, even where
what is bound would settle the value. -/
namespace Switching

namespace Gate

def Holds : Gate → Prop → Prop → Prop
  | and, p, q => p ∧ q
  | or, p, q => p ∨ q
  | xor, p, q => p ∧ ¬q ∨ ¬p ∧ q
  | nand, p, q => ¬(p ∧ q)
  | nor, p, q => ¬(p ∨ q)
  | xnor, p, q => p ↔ q

theorem apply_eq_true_iff (k : Gate) (a b : Bool) :
    k.apply a b = true ↔ k.Holds (a = true) (b = true) := by
  cases k <;> cases a <;> cases b <;> simp [apply, Holds]

end Gate

namespace Formula

variable {f : Formula}

def Holds (p : String → Prop) : Formula → Prop
  | var n _ => p n
  | const b _ => b = true
  | not f _ => ¬f.Holds p
  | gate k l r _ => k.Holds (l.Holds p) (r.Holds p)

theorem value_eq_true_iff (f : Formula) (v : String → Bool) :
    f.value v = true ↔ f.Holds fun x => v x = true := by
  induction f with
  | var n i => exact Iff.rfl
  | const b i => exact Iff.rfl
  | not f i ih => rw [value, Holds, Bool.not_eq_true', ← Bool.not_eq_true, ih]
  | gate k l r i left right => rw [value, Holds, k.apply_eq_true_iff, left, right]

theorem evaluate_of_bound {a : Assignment} (bound : ∀ x ∈ f.names, ∃ b, a.value? x = some b) :
    ∃ b, f.evaluate a = .ok b ∧ (b = true ↔ f.Holds fun x => (a.value? x).getD false = true) := by
  refine ⟨_, ?_, f.value_eq_true_iff _⟩
  rw [evaluate_eq_leftmost, unbound?_eq_none.mpr bound]

theorem evaluate_of_unbound {a : Assignment} (unbound : ¬∀ x ∈ f.names, ∃ b, a.value? x = some b) :
    ∃ front x back, f.leaves = front ++ x :: back ∧ (∀ y ∈ front, ∃ b, a.value? y = some b) ∧
      a.value? x = none ∧ f.evaluate a = .error (.undefinedVariable x) := by
  obtain ⟨x, missing⟩ := Option.ne_none_iff_exists'.mp (mt unbound?_eq_none.mp unbound)
  have answer := evaluate_eq_leftmost f a
  rw [missing] at answer
  obtain ⟨none, front, back, split, before⟩ := List.find?_eq_some_iff_append.mp missing
  refine ⟨front, x, back, split, fun y hy => ?_, by simpa using none, answer⟩
  have some := before y hy
  rw [Bool.not_eq_true', ← Bool.not_eq_true, Option.isNone_iff_eq_none] at some
  exact Option.ne_none_iff_exists'.mp some

/-- Evaluation with levels for the variables: if all of them have one, it decides what the formula
says of the variables whose level is not zero; if not, it fails, with the name of the first leaf
from the left that has none. -/
theorem evaluate_strict (f : Formula) (levels : List (String × Int)) :
    ((∀ x ∈ f.names, x ∈ levels.map Prod.fst) →
      ∃ b, f.evaluate (.ofLevels levels) = .ok b ∧
        (b = true ↔ f.Holds fun x => ∃ n, Assignment.level? levels x = some n ∧ n ≠ 0)) ∧
    (¬(∀ x ∈ f.names, x ∈ levels.map Prod.fst) →
      ∃ front x back, f.leaves = front ++ x :: back ∧
        (∀ y ∈ front, y ∈ levels.map Prod.fst) ∧ x ∉ levels.map Prod.fst ∧
        f.evaluate (.ofLevels levels) = .error (.undefinedVariable x)) := by
  simp only [← Assignment.exists_value_ofLevels_iff, ← Assignment.value?_ofLevels_eq_true_iff]
  refine ⟨evaluate_of_bound, fun unbound => ?_⟩
  obtain ⟨front, x, back, split, before, none, answer⟩ := evaluate_of_unbound unbound
  exact ⟨front, x, back, split, before, by simp [none], answer⟩

/-- With a 1 in front of it the rest of a sum settles nothing, but it has to be bound. Of two levels
of a name the last one counts. -/
theorem evaluate_strict_settled :
    let f : Formula := .gate .or (.const true 1) (.gate .and (.var "A" 2) (.var "B" 3) 4) 5
    let g : Formula := .gate .xor (.var "A" 1) (.var "B" 2) 3
    f.evaluate (.ofLevels [("B", 1)]) = .error (.undefinedVariable "A") ∧
      g.evaluate (.ofLevels [("B", 1), ("A", -2), ("B", 0)]) = .ok true := by
  intro f g
  obtain ⟨front, x, back, split, _, unbound, answer⟩ :=
    (evaluate_strict f [("B", 1)]).2 (by decide)
  obtain ⟨b, value, decides⟩ :=
    (evaluate_strict g [("B", 1), ("A", -2), ("B", 0)]).1 (by decide)
  have leaf : x = "A" ∨ x = "B" := by
    have member : x ∈ f.leaves := by simp [split]
    simpa [f] using member
  have zero : Assignment.level? [("B", 1), ("A", -2), ("B", 0)] "B" = some 0 := by decide
  constructor
  · rcases leaf with rfl | rfl
    · exact answer
    · exact absurd (by decide) unbound
  · have differ : b = true := by
      refine decides.mpr (.inl ⟨⟨-2, by decide, by decide⟩, ?_⟩)
      rintro ⟨n, found, nonzero⟩
      cases found.symm.trans zero
      exact nonzero rfl
    rw [value, differ]

end Formula

end Switching
