import Switching.Proofs.Entries
import Switching.Proofs.Leaves

/-! What the trace of an evaluation records: the value of every node, behind those of its operands.
So no node lacks an entry, whatever numbers the nodes have, and evaluation with a trace fails just
where plain evaluation does. -/
namespace Switching

namespace Formula

variable {f g : Formula}

def postorder : Formula → List Formula
  | var n i => [var n i]
  | const b i => [const b i]
  | not f i => f.postorder ++ [not f i]
  | gate k l r i => l.postorder ++ r.postorder ++ [gate k l r i]

theorem postorder_perm (f : Formula) : f.postorder.Perm f.nodes := by
  induction f with
  | var n i => exact .refl _
  | const b i => exact .refl _
  | not f i ih =>
    simp only [postorder, nodes_not]
    exact (List.perm_append_singleton ..).trans (ih.cons _)
  | gate k l r i left right =>
    simp only [postorder, nodes_gate]
    exact (List.perm_append_singleton ..).trans ((left.append right).cons _)

def entry (v : String → Bool) (g : Formula) : Int × Bool := (g.id, g.value v)

/-- A trace behind which the nodes of a formula are recorded. -/
def traceOnto (v : String → Bool) (f : Formula) (t : Trace) : Trace :=
  ⟨(f.postorder.map (entry v)).reverse ++ t.log⟩

theorem traceOnto_var (v : String → Bool) (n : String) (i : Int) (t : Trace) :
    (var n i).traceOnto v t = t.record i (v n) := rfl

theorem traceOnto_not (v : String → Bool) (f : Formula) (i : Int) (t : Trace) :
    (not f i).traceOnto v t = (f.traceOnto v t).record i (!f.value v) := by
  simp [traceOnto, postorder, Trace.record, entry, id, value]

theorem traceOnto_gate (v : String → Bool) (k : Gate) (l r : Formula) (i : Int) (t : Trace) :
    (gate k l r i).traceOnto v t =
      (r.traceOnto v (l.traceOnto v t)).record i (k.apply (l.value v) (r.value v)) := by
  simp [traceOnto, postorder, Trace.record, entry, id, value]

theorem bind_apply {α β : Type} (x : StateT Trace (Except Fault) α)
    (next : α → StateT Trace (Except Fault) β) (t : Trace) :
    (x >>= next) t = (x t).bind fun r => next r.1 r.2 := rfl

theorem combine_traceSteps (f : Formula) (a : Assignment) (t : Trace) :
    f.combine (traceSteps a) t =
      match f.unbound? a with
      | some x => .error (.undefinedVariable x)
      | none =>
        let v := fun x => (a.value? x).getD false
        .ok (f.value v, f.traceOnto v t) := by
  induction f generalizing t with
  | var n i =>
    have looked : (var n i).combine (traceSteps a) t =
        (leafValue a n).bind fun b => recorded i b t := by
      simp only [combine, traceSteps, bind_apply]
      cases leafValue a n <;> rfl
    simp only [looked, leafValue]
    cases found : a.value? n with
    | none => simp [unbound?, found, Except.bind]
    | some b => simp [unbound?, found, Except.bind, recorded, value, traceOnto_var]
  | const b i => rfl
  | not f i ih =>
    simp only [combine, bind_apply, ih, unbound?_not]
    cases f.unbound? a with
    | some x => rfl
    | none => exact congrArg (fun t => Except.ok (_, t)) (traceOnto_not ..).symm
  | gate k l r i left right =>
    simp only [combine, bind_apply, left, unbound?_gate]
    cases l.unbound? a with
    | some x => rfl
    | none =>
      simp only [Except.bind, right, Option.none_or]
      cases r.unbound? a with
      | some x => rfl
      | none => exact congrArg (fun t => Except.ok (_, t)) (traceOnto_gate ..).symm

theorem evaluateTraced_eq (f : Formula) (a : Assignment) :
    f.evaluateTraced a =
      match f.unbound? a with
      | some x => .error (.undefinedVariable x)
      | none =>
        let v := fun x => (a.value? x).getD false
        .ok (f.value v, f.traceOnto v .empty) := by
  rw [evaluateTraced, foldM_eq_combine]
  exact combine_traceSteps f a .empty

theorem value?_traceOnto (v : String → Bool) (f : Formula) (k : Int) :
    (f.traceOnto v .empty).value? k =
      (f.postorder.reverse.find? fun g => k == g.id).map (value v) := by
  rw [Trace.value?, traceOnto, ← List.map_reverse, Trace.empty, List.append_nil]
  exact lookup_map id (value v) _ k

theorem exists_value_iff {v : String → Bool} {k : Int} :
    (∃ b, (f.traceOnto v .empty).value? k = some b) ↔ ∃ g ∈ f.nodes, g.id = k := by
  rw [value?_traceOnto, ← Option.isSome_iff_exists, Option.isSome_map, List.find?_isSome]
  simp only [List.mem_reverse, (postorder_perm f).mem_iff, beq_iff_eq, eq_comm (a := k)]

end Formula

end Switching
