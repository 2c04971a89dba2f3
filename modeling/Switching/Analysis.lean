import Switching.Grammar.Parse
import Switching.Karnaugh.Group
import Switching.Rounding
import Switching.TruthTable
import Switching.Verification

/-!
The analysis of an expression: its tokens, its formula, its truth table, its Karnaugh map if it has
two to four variables, and its minimal sum of products if it has no more than six.
-/
namespace Switching

structure Statistics where
  expressionGates : Nat
  simplifiedGates : Nat
  reduction : Int
  primes : Nat
  chosen : Nat
  uncovered : List Nat
  deriving DecidableEq, Repr

namespace Statistics

/-- What part of the gates was saved, in percent: computed in double precision and rounded to the
nearest whole number. An expression without gates saves nothing. -/
def reductionOf (given simplified : Nat) : Int :=
  if given = 0 then 0
  else nearestInt ((1 - Float.ofNat simplified / Float.ofNat given) * 100)

def toDocument (s : Statistics) : Document :=
  .object
    [("original_gate_count", .nat s.expressionGates),
      ("simplified_gate_count", .nat s.simplifiedGates),
      ("reduction", .integer s.reduction), ("prime_implicants", .nat s.primes),
      ("selected_implicants", .nat s.chosen), ("uncovered_minterms", .nats s.uncovered)]

end Statistics

structure Simplification where
  expression : String
  simplified : String
  minimization : Minimization
  statistics : Statistics
  deriving DecidableEq, Repr

namespace Simplification

def ofTable (method : Method) (t : TruthTable) (f : Formula)
    (solve : Solver := .branchAndBound) : Except Fault Simplification :=
  match minimize method (t.minterms.map Int.ofNat) t.width (some t.names) solve with
  | .error fault => .error fault
  | .ok m =>
    let given := f.gateCount
    let simplified := Implicant.sumGates m.chosen
    .ok
      { expression := t.expression
        simplified := m.expression
        minimization := m
        statistics :=
          { expressionGates := given
            simplifiedGates := simplified
            reduction := Statistics.reductionOf given simplified
            primes := m.primes.length
            chosen := m.chosen.length
            uncovered := m.uncovered } }

def ofText (method : Method) (text : String) (solve : Solver := .branchAndBound) :
    Except Fault Simplification :=
  match Formula.ofText text with
  | .error fault => .error fault
  | .ok p =>
    if Activity.minimization.limit < p.names.length then
      .error (.tooManyVariables .minimization p.names.length)
    else
      match TruthTable.ofFormula p.formula (some p.names) (some text) with
      | .error fault => .error fault
      | .ok t => ofTable method t p.formula solve

def toDocument (s : Simplification) (withSteps : Bool) : Document :=
  .object <|
    [("original", .text s.expression), ("simplified", .text s.simplified),
      ("statistics", s.statistics.toDocument)] ++
      if withSteps then
        [("steps",
          .list (s.minimization.steps.map fun step => step.toDocument s.minimization.names))]
      else []

end Simplification

structure GroupedMap where
  map : KarnaughMap
  groups : List MapGroup
  deriving DecidableEq, Repr

structure Analysis where
  expression : String
  tokens : List Token
  formula : Formula
  names : List String
  table : TruthTable
  map? : Option GroupedMap
  simplification? : Option Simplification
  deriving DecidableEq, Repr

namespace Analysis

def mapOf (t : TruthTable) : Except Fault (Option GroupedMap) :=
  if t.width < Fault.mapSizes.1 || Fault.mapSizes.2 < t.width then .ok none
  else
    match KarnaughMap.ofTable t with
    | .error fault => .error fault
    | .ok m => .ok (some ⟨m, m.groups⟩)

def simplificationOf (method : Method) (t : TruthTable) (f : Formula)
    (solve : Solver := .branchAndBound) : Except Fault (Option Simplification) :=
  if Activity.minimization.limit < t.width then .ok none
  else
    match Simplification.ofTable method t f solve with
    | .error fault => .error fault
    | .ok s => .ok (some s)

def ofText (method : Method) (text : String) (solve : Solver := .branchAndBound) :
    Except Fault Analysis := do
  let tokens ← Token.scan text
  let p ← Formula.ofTokens tokens
  let table ← TruthTable.ofFormula p.formula (some p.names) (some text)
  let map? ← mapOf table
  let simplification? ← simplificationOf method table p.formula solve
  return ⟨text, tokens, p.formula, p.names, table, map?, simplification?⟩

end Analysis

end Switching
