import Switching.Formula.Evaluate
import Switching.Formula.Render

/-!
Truth tables: the value of a formula for every assignment over a list of names. Row `i` holds the
assignment with number `i`, so the first name is the most significant bit:

    A B | F   minterm  maxterm
    0 0 | .      0        3
    0 1 | .      1        2
    1 0 | .      2        1
    1 1 | .      3        0
-/
namespace Switching

/-- A row: an assignment, the value under it, its number, and the number of the assignment with all
bits turned over. -/
structure Row where
  inputs : Assignment
  output : Bool
  minterm : Nat
  maxterm : Nat
  deriving DecidableEq, Repr

structure TruthTable where
  names : List String
  rows : List Row
  expression : String
  deriving DecidableEq, Repr

namespace Row

def bit (r : Row) (name : String) : Bool := (r.inputs.value? name).getD false

def bits (r : Row) (names : List String) : List Bool := names.map r.bit

def ofFormula (f : Formula) (names : List String) (i : Nat) : Except Fault Row :=
  let inputs := Assignment.ofNumber i names
  match f.evaluate inputs with
  | .ok output => .ok ⟨inputs, output, i, powerOfTwo names.length - 1 - i⟩
  | .error fault => .error fault

end Row

namespace TruthTable

/-- The table of a formula over the given names, by default its own in ascending order. The
expression kept with it is by default the formula as text. -/
def ofFormula (f : Formula) (names? : Option (List String) := none)
    (expression? : Option String := none) : Except Fault TruthTable :=
  let names := names?.getD f.names
  if Activity.table.limit < names.length then
    .error (.tooManyVariables .table names.length)
  else
    match (List.range (powerOfTwo names.length)).mapM (Row.ofFormula f names) with
    | .ok rows => .ok ⟨names, rows, expression?.getD f.infixText⟩
    | .error fault => .error fault

def width (t : TruthTable) : Nat := t.names.length

def outputs (t : TruthTable) : List Bool := t.rows.map (·.output)

def minterms (t : TruthTable) : List Nat := (t.rows.filter (·.output)).map (·.minterm)

def maxterms (t : TruthTable) : List Nat := (t.rows.filter (!·.output)).map (·.minterm)

def ones (t : TruthTable) : Nat := t.rows.countP (·.output)

def zeros (t : TruthTable) : Nat := t.rows.length - t.ones

def constant? (t : TruthTable) : Option Bool :=
  if t.ones = 0 then some false else if t.ones = t.rows.length then some true else none

def isConstant (t : TruthTable) : Bool := t.constant?.isSome

end TruthTable

end Switching
