import Switching.Formula

/-!
Combining a formula from its leaves to its root, in post-order and with the left operand first.
The work to do and the values at hand are kept in two lists, so the depth of the formula does not
bound what can be combined. The work list says how many values have to be at hand, and every step
keeps that promise: `Ready` is what makes the last value the only one.
-/
namespace Switching

/-- What happens at each kind of node, given all that the node is made of and then the values of its
operands. -/
structure Steps (m : Type → Type) (α : Type) where
  onVariable : String → Int → m α
  onConstant : Bool → Int → m α
  onNot : Formula → Int → α → m α
  onGate : Gate → Formula → Formula → Int → α → α → m α

namespace Formula

inductive Task
  | visit (f : Formula)
  | closeNot (operand : Formula) (id : Int)
  | closeGate (kind : Gate) (left right : Formula) (id : Int)

namespace Task

/-- With this many values at hand the work ends with a single one, and no step lacks a value. -/
def Ready : List Task → Nat → Prop
  | [], count => count = 1
  | visit _ :: work, count => Ready work (count + 1)
  | closeNot .. :: work, count => 0 < count ∧ Ready work count
  | closeGate .. :: work, count => 1 < count ∧ Ready work (count - 1)

namespace Ready

variable {f l r : Formula} {k : Gate} {i : Int} {work : List Task} {count : Nat}

theorem single {α : Type} (f : Formula) : Ready [visit f] ([] : List α).length := rfl

theorem visited (h : Ready (visit f :: work) count) : Ready work (count + 1) := h

theorem visitNot (h : Ready (visit (.not f i) :: work) count) :
    Ready (visit f :: closeNot f i :: work) count :=
  ⟨Nat.succ_pos _, h⟩

theorem visitGate (h : Ready (visit (.gate k l r i) :: work) count) :
    Ready (visit l :: visit r :: closeGate k l r i :: work) count :=
  ⟨Nat.succ_lt_succ (Nat.succ_pos _), h⟩

theorem closedNot (h : Ready (closeNot f i :: work) (count + 1)) : Ready work (count + 1) := h.2

theorem closedGate (h : Ready (closeGate k l r i :: work) (count + 2)) : Ready work (count + 1) :=
  h.2

end Ready

def formulaSteps : Formula → Nat
  | var .. | const .. => 1
  | not f _ => formulaSteps f + 2
  | gate _ l r _ => formulaSteps l + formulaSteps r + 2

def steps : List Task → Nat
  | [] => 0
  | visit f :: work => formulaSteps f + steps work
  | closeNot .. :: work | closeGate .. :: work => steps work + 1

end Task

variable {m : Type → Type} [Monad m] {α : Type}

/-- Do the work with the values at hand, the latest value first. -/
@[specialize]
def runTasks (s : Steps m α) :
    (work : List Task) → (values : List α) → Task.Ready work values.length → m α
  | [], [v], _ => pure v
  | .visit (.var n i) :: work, values, h => do
    let v ← s.onVariable n i
    runTasks s work (v :: values) h.visited
  | .visit (.const b i) :: work, values, h => do
    let v ← s.onConstant b i
    runTasks s work (v :: values) h.visited
  | .visit (.not f i) :: work, values, h =>
    runTasks s (.visit f :: .closeNot f i :: work) values h.visitNot
  | .visit (.gate k l r i) :: work, values, h =>
    runTasks s (.visit l :: .visit r :: .closeGate k l r i :: work) values h.visitGate
  | .closeNot f i :: work, v :: values, h => do
    let w ← s.onNot f i v
    runTasks s work (w :: values) h.closedNot
  | .closeGate k l r i :: work, right :: left :: values, h => do
    let v ← s.onGate k l r i left right
    runTasks s work (v :: values) h.closedGate
  | [], [], h => nomatch h
  | [], _ :: _ :: _, h => nomatch h
  | .closeNot .. :: _, [], h => nomatch h.1
  | .closeGate .. :: _, [], h => nomatch h.1
  | .closeGate .. :: _, [_], h => nomatch h.1
  termination_by work => Task.steps work
  decreasing_by all_goals simp only [Task.steps, Task.formulaSteps]; omega

@[inline]
def foldM (s : Steps m α) (f : Formula) : m α := runTasks s [.visit f] [] (.single f)

def fold (s : Steps Id α) (f : Formula) : α := (foldM s f).run

end Formula

end Switching
