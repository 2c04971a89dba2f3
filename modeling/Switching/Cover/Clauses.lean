import Switching.Cover.Covering

/-!
Covering problems in the form that solvers of clauses read. There is a variable for every candidate,
numbered from one, and a literal is the number of its variable, with a minus sign if it is negated.
A clause of the problem has to hold, and not to choose a candidate is a wish that weighs what the
candidate costs.
-/
namespace Switching

/-- Clauses that have to hold, and clauses that each cost their weight where they do not hold. -/
structure WeightedClauses where
  hard : List (List Int)
  soft : List (List Int × Nat)
  deriving DecidableEq, Repr

namespace WeightedClauses

def literalHolds (v : Nat → Bool) (literal : Int) : Bool :=
  if 0 < literal then v literal.natAbs else !v literal.natAbs

def clauseHolds (v : Nat → Bool) (clause : List Int) : Bool := clause.any (literalHolds v)

def Satisfied (w : WeightedClauses) (v : Nat → Bool) : Prop :=
  ∀ clause ∈ w.hard, clauseHolds v clause = true

def weight (w : WeightedClauses) (v : Nat → Bool) : Nat :=
  total ((w.soft.filter fun s => !clauseHolds v s.1).map Prod.snd)

def variableOf (place : Nat) : Int := place + 1

def ofCovering (p : Covering) : WeightedClauses where
  hard := p.clauses.map fun clause => clause.map variableOf
  soft := p.prices.zipIdx.map fun e => ([-variableOf e.2], e.1)

def valuation (model : List Int) (number : Nat) : Bool := model.contains (number : Int)

def placesOf (model : List Int) : List Nat :=
  (model.filter (0 < ·)).map fun literal => literal.natAbs - 1

end WeightedClauses

/-- A solver of weighted clauses: it answers with a model of those that have to hold. -/
abbrev ClauseSolver := WeightedClauses → Option (List Int)

namespace ClauseSolver

open WeightedClauses

/-- Where the hard clauses have a model, the answer is one that costs the least. -/
def Optimal (solve : ClauseSolver) : Prop :=
  ∀ w : WeightedClauses, (∃ v, w.Satisfied v) →
    ∃ model, solve w = some model ∧ w.Satisfied (valuation model) ∧
      ∀ v, w.Satisfied v → w.weight (valuation model) ≤ w.weight v

def toSolver (solve : ClauseSolver) : Solver := fun p =>
  (solve (.ofCovering p)).map placesOf

end ClauseSolver

end Switching
