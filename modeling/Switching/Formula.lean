import Switching.Counting
import Switching.Gate
import Switching.OrderedSet

/-!
Formulas: expressions as trees. Every node carries a number by which a trace of an evaluation tells
the nodes apart; two formulas are the same when they agree in all but these numbers.
-/
namespace Switching

inductive Formula
  | var (name : String) (id : Int)
  | const (value : Bool) (id : Int)
  | not (operand : Formula) (id : Int)
  | gate (kind : Gate) (left right : Formula) (id : Int)
  deriving DecidableEq, Repr

namespace Formula

def id : Formula → Int
  | var _ i | const _ i | not _ i | gate _ _ _ i => i

/-- The nodes in pre-order (a node, then its operands from left to right), and then `rest`. -/
def nodesOnto : Formula → List Formula → List Formula
  | var n i, rest => var n i :: rest
  | const b i, rest => const b i :: rest
  | not f i, rest => not f i :: f.nodesOnto rest
  | gate k l r i, rest => gate k l r i :: l.nodesOnto (r.nodesOnto rest)

def nodes (f : Formula) : List Formula := f.nodesOnto []

def nodeCount (f : Formula) : Nat := f.nodes.length

def leafName? : Formula → Option String
  | var n _ => some n
  | _ => none

/-- The names of the variables, ascending and without repetition. -/
def names (f : Formula) : List String := orderedSet (f.nodes.filterMap leafName?)

def operator? : Formula → Option String
  | not .. => some "NOT"
  | gate k .. => some k.name
  | _ => none

def operatorCounts (f : Formula) : List (String × Nat) :=
  let operators := f.nodes.filterMap operator?
  ("NOT" :: Gate.all.map Gate.name).filterMap fun word =>
    let n := operators.count word
    if n = 0 then none else some (word, n)

def gateCount (f : Formula) : Nat := total (f.operatorCounts.map Prod.snd)

def shape : Formula → Formula
  | var n _ => var n 0
  | const b _ => const b 0
  | not f _ => not f.shape 0
  | gate k l r _ => gate k l.shape r.shape 0

def same (f g : Formula) : Bool := f.shape == g.shape

theorem same_iff {f g : Formula} : f.same g = true ↔ f.shape = g.shape := by simp [same]

end Formula

end Switching
