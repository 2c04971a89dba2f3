import Switching.Minimization
import Switching.TruthTable

/-!
Checking a minimal sum of products against a truth table, and two formulas against each other.
-/
namespace Switching

structure Mismatch where
  minterm : Nat
  expected : Bool
  actual : Bool
  deriving DecidableEq, Repr

namespace Mismatch

def message (m : Mismatch) : String :=
  "Minterm " ++ toString m.minterm ++ ": expected " ++ bitText m.expected ++ ", got " ++
    bitText m.actual

end Mismatch

/-- What a check found: the tables are over different variables, or they differ in some rows. -/
inductive Verdict
  | otherVariables (minimized table : List String)
  | rows (mismatches : List Mismatch)
  deriving DecidableEq, Repr

namespace Verdict

def holds : Verdict → Bool
  | otherVariables .. => false
  | rows ms => ms.isEmpty

def messages : Verdict → List String
  | otherVariables minimized table =>
    ["Variable order differs: " ++ quotedList minimized ++ " vs " ++ quotedList table]
  | rows ms => ms.map Mismatch.message

end Verdict

namespace Minimization

def mismatch? (f : Formula) (r : Row) : Except Fault (Option Mismatch) :=
  match f.evaluate r.inputs with
  | .error fault => .error fault
  | .ok actual => .ok (if actual = r.output then none else some ⟨r.minterm, r.output, actual⟩)

/-- Check a minimization against a table: the sum of products is evaluated as a formula on every
row. -/
def verify (m : Minimization) (t : TruthTable) : Except Fault Verdict :=
  if m.names ≠ t.names then .ok (.otherVariables m.names t.names)
  else
    match t.rows.mapM (mismatch? m.toFormula) with
    | .error fault => .error fault
    | .ok found => .ok (.rows (found.filterMap fun x => x))

def valueAt (m : Minimization) (minterm : Nat) : Bool :=
  Implicant.sumCovers m.chosen minterm || m.expression == "1"

def matchesRow (m : Minimization) (r : Row) : Bool := m.valueAt r.minterm == r.output

def matchesTable (m : Minimization) (t : TruthTable) : Bool := t.rows.all m.matchesRow

private def comparisonLine (m : Minimization) (t : TruthTable) (r : Row) : String :=
  padLeft 4 (toString r.minterm) ++ " | " ++
    padLeft 8 (String.join ((r.bits t.names).map bitText)) ++ " | " ++
    padLeft 8 (bitText r.output) ++ " | " ++ padLeft 6 (bitText (m.valueAt r.minterm)) ++ " | " ++
    (if m.matchesRow r then "." else "X")

def comparison (m : Minimization) (t : TruthTable) : String :=
  lines <|
    ["Truth Table Verification", rule '=' 50,
      padLeft 4 "m" ++ " | " ++ padLeft 8 (String.join t.names) ++
        " | Expected | Actual | Match", rule '-' 50] ++
      t.rows.map (m.comparisonLine t) ++
      [rule '-' 50, "All correct: " ++ if m.matchesTable t then "True" else "False"]

end Minimization

namespace Formula

def differ (f g : Formula) (a : Assignment) : Except Fault Bool :=
  match f.evaluate a with
  | .error fault => .error fault
  | .ok v =>
    match g.evaluate a with
    | .error fault => .error fault
    | .ok w => .ok (v != w)

def differences (f g : Formula) (names : List String) : Except Fault (List Nat) :=
  match (Assignment.all names).mapM (differ f g) with
  | .error fault => .error fault
  | .ok flags => .ok ((flags.zipIdx.filter Prod.fst).map Prod.snd)

end Formula

end Switching
