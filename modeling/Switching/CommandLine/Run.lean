import Switching.CommandLine.Arguments
import Switching.Karnaugh.Render
import Switching.Minimization.Listing
import Switching.Service
import Switching.TruthTable.Canonical

/-!
A run of the command line: from the arguments to what is printed and the exit code. The code is 0
when the expression could be analyzed, 1 when it could not, and 2 when the arguments are misused.
-/
namespace Switching

/-- What a run prints, and its exit code. Misused arguments leave the wording of the complaint
open. -/
structure Outcome where
  exitCode : Nat
  output : String
  errors : Option String
  deriving DecidableEq, Repr

namespace Outcome

def success (output : String) : Outcome := ⟨0, output, some ""⟩

def failure (output errors : String) : Outcome := ⟨1, output, some errors⟩

def misuse : Outcome := ⟨2, "", none⟩

end Outcome

namespace CommandLine

def exampleListing : String :=
  lines <|
    ["Example expressions", rule '=' 40] ++
      Example.all.map fun e =>
        "  " ++ padRight 20 e.name ++ " [" ++ e.category ++ "]  " ++ e.expression

def nodeText (b : Bool) (g : Formula) : String := "  " ++ bitText b ++ "  " ++ g.infixText

def traceLine (trace : Trace) (g : Formula) : Except Fault String :=
  match trace.value? g.id with
  | some b => .ok (nodeText b g)
  | none => .error (.unassigned (toString g.id))

def traceListing (f : Formula) (a : Assignment) : Except Fault String :=
  match f.evaluateTraced a with
  | .error fault => .error fault
  | .ok (v, trace) =>
    match f.nodes.mapM (traceLine trace) with
    | .error fault => .error fault
    | .ok listed => .ok (lines (["Evaluation trace:"] ++ listed ++ ["Result: " ++ bitText v]))

/-- The outcome of a refused expression. How the fault arose, which is told beside it on a verbose
run, is left out. -/
def diagnosticOutcome (o : Options) (text : String) (d : Diagnostic) : Outcome :=
  if o.format = .json then .failure (lines [(d.toDocument (some text)).print .full]) ""
  else
    let hints :=
      match d.suggestion with
      | some s => if s = "" then [] else ["Hint: " ++ s]
      | none => []
    .failure "" (lines (d.friendly (some text) :: hints))

def faultOutcome (o : Options) (text : String) (f : Fault) : Except Fault Outcome :=
  match f.diagnostic? with
  | none => .error f
  | some d => .ok (diagnosticOutcome o text d)

def document (a : Analysis) : Document :=
  .object
    [("expression", .text a.expression), ("variables", .texts a.names),
      ("truthTable", a.table.toDocument), ("sop", .text a.table.sumOfProducts),
      ("pos", .text a.table.productOfSums),
      ("simplified", .ofOption (a.simplification?.map fun s => .text s.simplified)),
      ("statistics", .ofOption (a.simplification?.map fun s => s.statistics.toDocument))]

def headText (o : Options) (a : Analysis) : String :=
  let names := ", ".intercalate a.names
  lines
      ["Boolean Expression Analyzer", rule '=' 40, "Expression: " ++ a.expression,
        "Parsed:     " ++ a.formula.infixText,
        "Variables:  " ++ (if names = "" then "(none)" else names), ""] ++
    (if o.verbose then a.table.indexed else a.table.plain) ++ "\n" ++
    lines
      ((match a.table.constant? with
        | some b => ["Constant function: always " ++ bitText b]
        | none => []) ++
        ["Canonical SOP: " ++ a.table.sumOfProducts, "Canonical POS: " ++ a.table.productOfSums])

def mapText (a : Analysis) : String :=
  match a.map? with
  | none => lines ["", "K-map available for 2-4 variables only"]
  | some m => "\n" ++ m.map.gridText ++ KarnaughMap.groupText m.groups

def verdictText (v : Verdict) : String :=
  lines <|
    ["", "Verification " ++ if v.holds then "PASSED" else "FAILED"] ++
      v.messages.map ("  " ++ ·)

def verificationText (m : Minimization) (t : TruthTable) : Except Fault String :=
  match m.verify t with
  | .error f => .error f
  | .ok verdict => .ok ("\n" ++ m.comparison t ++ verdictText verdict)

def summaryText (s : Simplification) : String :=
  lines
    ["", "Minimized (" ++ s.minimization.method.name ++ "): " ++ s.simplified,
      "Gates: " ++ toString s.statistics.expressionGates ++ " -> " ++
        toString s.statistics.simplifiedGates ++ " (" ++ toString s.statistics.reduction ++
        "% reduction)"]

def stepsText (m : Minimization) : String :=
  lines ([""] ++ (m.steps.map fun step => "- " ++ step.description) ++ [""]) ++ m.primeListing

def simplificationText (o : Options) (a : Analysis) (s : Simplification) : Except Fault String :=
  let front := summaryText s ++ if o.steps then stepsText s.minimization else ""
  if o.verbose then
    match verificationText s.minimization a.table with
    | .error f => .error f
    | .ok rest => .ok (front ++ rest)
  else .ok front

def unavailableText : String :=
  lines ["", "Simplification not available: too many variables"]

def uncoveredWarning (left : List Nat) : String :=
  lines ["", "Warning: minterms left uncovered: " ++ numberList left]

def tailOutcome (o : Options) (a : Analysis) (front : String) : Except Fault Outcome :=
  let front := front ++ if o.map then mapText a else ""
  match a.simplification? with
  | none => .ok (.success (front ++ unavailableText))
  | some s =>
    match simplificationText o a s with
    | .error f => .error f
    | .ok rest =>
      if s.minimization.isComplete then .ok (.success (front ++ rest))
      else .ok (.failure (front ++ rest) (uncoveredWarning s.minimization.uncovered))

def reportOutcome (o : Options) (a : Analysis) : Except Fault Outcome :=
  match o.trace? with
  | none => tailOutcome o a (headText o a)
  | some assignment =>
    match traceListing a.formula assignment with
    | .error f =>
      match f.diagnostic? with
      | some d => .ok (.failure (headText o a ++ "\n") (lines ["Error: " ++ d.message]))
      | none => .error f
    | .ok trace => tailOutcome o a (headText o a ++ "\n" ++ trace)

def export? (a : Analysis) : OutputFormat → Option String
  | .csv => some a.table.csv
  | .latex => some a.table.latex
  | .json => some ((document a).print .full)
  | .text => none

def analysisOutcome (o : Options) (a : Analysis) : Except Fault Outcome :=
  match export? a o.format with
  | some s => .ok (.success (lines [s]))
  | none => reportOutcome o a

def validationOutcome (text : String) : Outcome :=
  let v := Validation.ofText text
  let output := lines [v.toDocument.print .ascii]
  if v.valid then .success output else .failure output ""

def runOptions (o : Options) (solve : Solver := .branchAndBound) : Except Fault Outcome :=
  if o.examples then .ok (.success exampleListing)
  else
    match o.expression? with
    | none => .ok .misuse
    | some text =>
      if o.validate then .ok (validationOutcome text)
      else
        match Analysis.ofText o.method text solve with
        | .error f => faultOutcome o text f
        | .ok a => analysisOutcome o a

def usage : String :=
  lines
    ["usage: switching [-h] [-f text|csv|latex|json] [--exact] [--steps] [--kmap]",
      "                 [--trace A=1,B=0] [--validate] [--examples] [-v] [expression]"]

def run (arguments : List String) (solve : Solver := .branchAndBound) : Except Fault Outcome :=
  match Reading.ofArguments arguments with
  | .refused => .ok .misuse
  | .help => .ok (.success usage)
  | .options o => runOptions o solve

end CommandLine

end Switching
