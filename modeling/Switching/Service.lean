import Switching.Analysis
import Switching.Diagnostic
import Switching.TruthTable.Export

/-!
Requests about expressions, answered by a status and a document. A request for a value that is no
text, or for an empty text where an expression is needed, is answered and not refused.
-/
namespace Switching

structure Example where
  name : String
  expression : String
  category : String
  deriving DecidableEq, Repr

namespace Example

def all : List Example :=
  [⟨"Simple AND", "A AND B", "basic"⟩,
    ⟨"Simple OR", "A OR B", "basic"⟩,
    ⟨"NOT Gate", "NOT A", "basic"⟩,
    ⟨"XOR Gate", "A XOR B", "basic"⟩,
    ⟨"NAND Gate", "A NAND B", "basic"⟩,
    ⟨"NOR Gate", "A NOR B", "basic"⟩,
    ⟨"Combined Logic", "(A AND B) OR (C AND D)", "intermediate"⟩,
    ⟨"Half Adder Sum", "A XOR B", "circuits"⟩,
    ⟨"Half Adder Carry", "A AND B", "circuits"⟩,
    ⟨"Full Adder Sum", "A XOR B XOR Cin", "circuits"⟩,
    ⟨"Full Adder Carry", "(A AND B) OR (Cin AND (A XOR B))", "circuits"⟩,
    ⟨"2:1 Multiplexer", "(A AND NOT S) OR (B AND S)", "circuits"⟩,
    ⟨"De Morgan Example", "NOT (A AND B)", "theorems"⟩,
    ⟨"Complex Expression", "(A AND B) OR (NOT C AND D) XOR E", "advanced"⟩]

def toDocument (e : Example) : Document :=
  .object
    [("name", .text e.name), ("expression", .text e.expression), ("category", .text e.category)]

end Example

structure Response where
  status : Nat
  body : Document
  deriving Repr

structure Validation where
  names : List String
  fault? : Option Fault
  deriving DecidableEq, Repr

namespace Validation

def ofText (text : String) : Validation :=
  match Formula.ofText text with
  | .ok p => ⟨p.names, none⟩
  | .error fault => ⟨[], some fault⟩

def valid (v : Validation) : Bool := v.fault?.isNone

def toDocument (v : Validation) : Document :=
  .object
    [("valid", .bool v.valid), ("variables", .texts v.names),
      ("variableCount", .nat v.names.length),
      ("error", .ofOption (v.fault?.map fun f => .text f.message))]

end Validation

namespace Response

def success (data : Document) : Response :=
  ⟨200, .object [("success", .bool true), ("data", data)]⟩

def badRequest (message : String) : Response :=
  ⟨400, .object [("error", .text "Invalid request"), ("message", .text message)]⟩

def noExpression : Response := badRequest "Expression is required and must be a string"

def ofFault (text : String) (f : Fault) : Except Fault Response :=
  match f.diagnostic? with
  | some d => .ok ⟨400, d.toDocument (some text)⟩
  | none => .error f

def analysisDocument (a : Analysis) : Document :=
  .object
    [("expression", .text a.expression), ("variables", .texts a.names),
      ("truthTable", a.table.toDocument),
      ("simplification", .ofOption (a.simplification?.map (·.toDocument false)))]

def parse (expression : Document) : Except Fault Response :=
  match expression with
  | .text s =>
    if s = "" then .ok noExpression
    else
      match Analysis.ofText .greedy s with
      | .ok a => .ok (success (analysisDocument a))
      | .error f => ofFault s f
  | _ => .ok noExpression

/-- Check an expression. What is no text is checked as the empty one. -/
def validate (expression : Document) : Response :=
  match expression with
  | .text s => ⟨200, (Validation.ofText s).toDocument⟩
  | _ => ⟨200, (Validation.ofText "").toDocument⟩

def simplify (method : Method) (expression : Document) (solve : Solver := .branchAndBound) :
    Except Fault Response :=
  match expression with
  | .text s =>
    if s = "" then .ok noExpression
    else
      match Simplification.ofText method s solve with
      | .ok r => .ok (success (r.toDocument true))
      | .error (.tooManyVariables activity _) =>
        .ok ⟨400,
          .object
            [("error", .text "Simplification not available"),
              ("message",
                .text ("Expression has too many variables (max " ++ toString activity.limit ++
                  ")"))]⟩
      | .error f => ofFault s f
  | _ => .ok noExpression

def examples : Response := success (.list (Example.all.map (·.toDocument)))

end Response

end Switching
