import Switching.Assignment
import Switching.Formula.Fold

/-!
The value of a formula under an assignment, and the trace of its evaluation. Both operands of a gate
are evaluated, so a missing value is found even where the other operand decides.
-/
namespace Switching

namespace Formula

def leafValue (a : Assignment) (name : String) : Except Fault Bool :=
  match a.value? name with
  | some b => .ok b
  | none => .error (.undefinedVariable name)

def valueSteps (a : Assignment) : Steps (Except Fault) Bool where
  onVariable name _ := leafValue a name
  onConstant b _ := .ok b
  onNot _ _ v := .ok !v
  onGate k _ _ _ v w := .ok (k.apply v w)

/-- The value of a formula, and the first variable from the left without a value as a fault. -/
def evaluate (f : Formula) (a : Assignment) : Except Fault Bool := foldM (valueSteps a) f

def evaluateAll (f : Formula) (names : List String) : Except Fault (List Bool) :=
  (Assignment.all names).mapM fun a => f.evaluate a

end Formula

/-- The values of the nodes by their numbers, the latest first. -/
structure Trace where
  log : List (Int × Bool)
  deriving DecidableEq, Repr

namespace Trace

def empty : Trace := ⟨[]⟩

def record (t : Trace) (id : Int) (b : Bool) : Trace := ⟨(id, b) :: t.log⟩

def value? (t : Trace) (id : Int) : Option Bool := t.log.lookup id

/-- Of neighbours with one number, the first. -/
def firsts : List (Int × Bool) → List (Int × Bool)
  | [] => []
  | [e] => [e]
  | e :: e' :: es =>
    if e.1 = e'.1 then firsts (e :: es) else e :: firsts (e' :: es)
  termination_by es => es.length

/-- The numbers in ascending order, each with the value that was recorded last. -/
def entries (t : Trace) : List (Int × Bool) :=
  firsts (t.log.mergeSort fun e e' => e.1 ≤ e'.1)

end Trace

namespace Formula

def recorded (id : Int) (v : Bool) : StateT Trace (Except Fault) Bool :=
  fun t => .ok (v, t.record id v)

def traceSteps (a : Assignment) : Steps (StateT Trace (Except Fault)) Bool where
  onVariable name i := do recorded i (← leafValue a name)
  onConstant b i := recorded i b
  onNot _ i v := recorded i !v
  onGate k _ _ i v w := recorded i (k.apply v w)

def evaluateTraced (f : Formula) (a : Assignment) : Except Fault (Bool × Trace) :=
  (foldM (traceSteps a) f).run .empty

end Formula

end Switching
