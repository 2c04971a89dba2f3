import Mathlib.Data.String.Basic
import Switching.Formula
import Switching.Proofs.OrderedSet

/-! The nodes and the names of a formula, by the recursion of the formula. -/
namespace Switching

namespace Formula

variable {f g : Formula} {k : Gate} {n x : String} {b : Bool} {i : Int}

theorem nodesOnto_eq (f : Formula) (rest : List Formula) : f.nodesOnto rest = f.nodes ++ rest := by
  induction f generalizing rest with
  | var n i => rfl
  | const b i => rfl
  | not f i ih =>
    change not f i :: f.nodesOnto rest = not f i :: f.nodesOnto [] ++ rest
    rw [ih rest, ih [], List.append_nil, List.cons_append]
  | gate k l r i left right =>
    change gate k l r i :: l.nodesOnto (r.nodesOnto rest) =
      gate k l r i :: l.nodesOnto (r.nodesOnto []) ++ rest
    rw [left, left, right rest, right [], List.append_nil, List.cons_append, List.append_assoc]

@[simp]
theorem nodes_not (f : Formula) (i : Int) : (not f i).nodes = not f i :: f.nodes := by
  rw [nodes, nodesOnto, nodesOnto_eq, List.append_nil]

@[simp]
theorem nodes_gate (k : Gate) (f g : Formula) (i : Int) :
    (gate k f g i).nodes = gate k f g i :: (f.nodes ++ g.nodes) := by
  rw [nodes, nodesOnto, nodesOnto_eq, nodesOnto_eq, List.append_nil]

theorem mem_names : x ∈ f.names ↔ ∃ g ∈ f.nodes, g.leafName? = some x := by
  rw [names, mem_orderedSet, List.mem_filterMap]

@[simp]
theorem mem_names_var : x ∈ (var n i).names ↔ x = n := by
  simp [mem_names, nodes, nodesOnto, leafName?, eq_comm]

@[simp]
theorem not_mem_names_const : x ∉ (const b i).names := by
  simp [mem_names, nodes, nodesOnto, leafName?]

@[simp]
theorem mem_names_not : x ∈ (not f i).names ↔ x ∈ f.names := by
  simp [mem_names, leafName?]

@[simp]
theorem mem_names_gate : x ∈ (gate k f g i).names ↔ x ∈ f.names ∨ x ∈ g.names := by
  simp [mem_names, leafName?, or_and_right, exists_or]

theorem mem_names_shape : x ∈ f.shape.names ↔ x ∈ f.names := by
  induction f with
  | var n i => simp [shape]
  | const b i => simp [shape]
  | not f i ih => simp [shape, ih]
  | gate k l r i left right => simp [shape, left, right]

theorem pairwise_names (f : Formula) : f.names.Pairwise (· < ·) := pairwise_orderedSet _

end Formula

end Switching
