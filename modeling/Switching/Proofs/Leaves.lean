import Switching.Proofs.Value

/-! Evaluation is strict. It visits the leaves from left to right, and the first variable without a
value is what it reports, even where the other operands decide. -/
namespace Switching

namespace Formula

variable {f l r : Formula} {k : Gate} {n x : String} {b : Bool} {i : Int}

def leaves (f : Formula) : List String := f.nodes.filterMap leafName?

@[simp]
theorem leaves_var (n : String) (i : Int) : (var n i).leaves = [n] := rfl

@[simp]
theorem leaves_const (b : Bool) (i : Int) : (const b i).leaves = [] := rfl

@[simp]
theorem leaves_not (f : Formula) (i : Int) : (not f i).leaves = f.leaves := by
  rw [leaves, nodes_not, List.filterMap_cons_none rfl, leaves]

@[simp]
theorem leaves_gate (k : Gate) (l r : Formula) (i : Int) :
    (gate k l r i).leaves = l.leaves ++ r.leaves := by
  rw [leaves, nodes_gate, List.filterMap_cons_none rfl, List.filterMap_append, leaves, leaves]

theorem mem_leaves : x ∈ f.leaves ↔ x ∈ f.names := by
  rw [mem_names, leaves, List.mem_filterMap]

/-- The leftmost variable that an assignment leaves without a value. -/
def unbound? (f : Formula) (a : Assignment) : Option String :=
  f.leaves.find? fun x => (a.value? x).isNone

theorem unbound?_not (f : Formula) (i : Int) (a : Assignment) :
    (not f i).unbound? a = f.unbound? a := by
  rw [unbound?, leaves_not, unbound?]

theorem unbound?_gate (k : Gate) (l r : Formula) (i : Int) (a : Assignment) :
    (gate k l r i).unbound? a = (l.unbound? a).or (r.unbound? a) := by
  rw [unbound?, leaves_gate, List.find?_append, unbound?, unbound?]

theorem unbound?_eq_none {a : Assignment} :
    f.unbound? a = none ↔ ∀ x ∈ f.names, ∃ b, a.value? x = some b := by
  simp only [unbound?, List.find?_eq_none, mem_leaves, Option.isNone_iff_eq_none]
  exact forall₂_congr fun x _ => Option.ne_none_iff_exists'

theorem of_unbound? {a : Assignment} (h : f.unbound? a = some x) :
    x ∈ f.names ∧ a.value? x = none :=
  ⟨mem_leaves.mp (List.mem_of_find?_eq_some h), by simpa using List.find?_some h⟩

theorem evaluate_eq_leftmost (f : Formula) (a : Assignment) :
    f.evaluate a =
      match f.unbound? a with
      | some x => .error (.undefinedVariable x)
      | none => .ok (f.value fun x => (a.value? x).getD false) := by
  rw [evaluate, foldM_eq_combine]
  induction f with
  | var n i =>
    rw [combine]
    simp only [valueSteps, leafValue]
    cases found : a.value? n <;> simp [unbound?, found, value]
  | const b i => rfl
  | not f i ih =>
    rw [combine, ih, unbound?_not]
    cases f.unbound? a <;> rfl
  | gate k l r i left right =>
    rw [combine, left, right, unbound?_gate]
    cases l.unbound? a with
    | some x => rfl
    | none => cases r.unbound? a <;> rfl

end Formula

end Switching
