import Switching.Document
import Switching.TruthTable

/-!
Tables in the formats that other programs read, and as plain text.
-/
namespace Switching

namespace TruthTable

def digits (t : TruthTable) (r : Row) : List String :=
  (r.bits t.names ++ [r.output]).map bitText

/-- Values separated by commas: a column for each variable, the output, and the number of the
row. -/
def csv (t : TruthTable) : String :=
  "\n".intercalate <|
    ",".intercalate (t.names ++ ["Output", "Minterm"]) ::
      t.rows.map fun r => ",".intercalate (t.digits r ++ [toString r.minterm])

def latex (t : TruthTable) : String :=
  "\\begin\x7btabular\x7d\x7b|" ++ rule 'c' (t.width + 1) ++ "|\x7d\n\\hline\n" ++
    " & ".intercalate (t.names ++ ["F"]) ++ " \\\\\n\\hline\n" ++
    String.join (t.rows.map fun r => " & ".intercalate (t.digits r) ++ " \\\\\n") ++
    "\\hline\n\\end\x7btabular\x7d"

def columnWidth (t : TruthTable) : Nat :=
  (t.names.map String.length).foldr max 1

def plain (t : TruthTable) : String :=
  let cells := t.names.map (padLeft t.columnWidth)
  let names := " | ".intercalate cells
  let header := if names = "" then "F" else names ++ " | F"
  lines <|
    [header, rule '-' header.length] ++
      t.rows.map fun r =>
        " | ".intercalate
          ((r.bits t.names).map (fun b => padLeft t.columnWidth (bitText b)) ++
            [bitText r.output])

def indexed (t : TruthTable) : String :=
  let body (cells : List String) := " ".intercalate (cells.map (padLeft 2))
  lines <|
    ["Truth table: " ++ t.expression, rule '=' 50,
      padLeft 4 "m" ++ " | " ++ body t.names ++ " | F | " ++ padLeft 4 "M", rule '-' 50] ++
      (t.rows.map fun r =>
        padLeft 4 (toString r.minterm) ++ " | " ++ body ((r.bits t.names).map bitText) ++
          " | " ++ bitText r.output ++ " | " ++ padLeft 4 (toString r.maxterm)) ++
      [rule '-' 50, "Ones: " ++ toString t.ones ++ ", zeros: " ++ toString t.zeros]

def rowDocument (r : Row) : Document :=
  .object
    [("inputs", .object (r.inputs.entries.map fun e => (e.1, .bit e.2))), ("output", .bit r.output),
      ("minterm", .nat r.minterm), ("maxterm", .nat r.maxterm)]

def toDocument (t : TruthTable) : Document :=
  .object
    [("variables", .texts t.names), ("expression", .text t.expression),
      ("rows", .list (t.rows.map rowDocument))]

end TruthTable

end Switching
