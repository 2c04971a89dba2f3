import Switching.Document
import Switching.Fault
import Switching.Text.Location

/-!
Diagnostics: how a fault of an expression is shown, with its place in the text and a hint.
-/
namespace Switching

structure Diagnostic where
  label : String
  message : String
  position : Option Int := none
  length : Option Int := none
  suggestion : Option String := none
  deriving DecidableEq, Repr

namespace Diagnostic

def general (message : String) (position : Option Int) : Diagnostic :=
  { label := "Error", message, position }

def lexical (message : String) (position : Int) (suggestion : Option String) : Diagnostic :=
  { label := "Lexical Error", message, position := some position, length := some 1, suggestion }

def syntactic (message : String) (position length : Int) (suggestion : Option String) :
    Diagnostic :=
  { label := "Syntax Error", message, position := some position, length := some length,
    suggestion }

def undefinedVariable (name : String) : Diagnostic :=
  general ("Undefined variable: " ++ name) none

def tooManyVariables (count limit : Int) (activity : String) : Diagnostic :=
  general
    ("Too many variables for " ++ activity ++ " (" ++ toString count ++ "). Maximum supported: " ++
      toString limit) none

def hint? (c : Char) : Option String :=
  if c = '[' || c = ']' then some "Use parentheses () instead of brackets []"
  else if c = '\x7b' || c = '\x7d' then some "Use parentheses () instead of braces \x7b\x7d"
  else if c = '=' then some "Use AND (&), OR (|), or XOR (^) operators"
  else if c = '<' then some "Invalid operator. Did you mean NOR (↓)?"
  else if c = '>' then some "Invalid operator. Did you mean NAND (↑)?"
  else if c = '@' || c = '#' || c = '$' then
    some "Unknown symbol. Supported: AND (&), OR (|), NOT (~), XOR (^)"
  else none

/-- One line that names the kind of the fault, its place if it has one (with line and column when
the text is at hand), and its message. -/
def friendly (d : Diagnostic) (text : Option String) : String :=
  match d.position, text with
  | none, _ => d.label ++ ": " ++ d.message
  | some p, none => d.label ++ " at position " ++ toString p ++ ": " ++ d.message
  | some p, some text =>
    d.label ++ " at position " ++ toString p ++ " (line " ++ toString (lineOf text.toList p) ++
      ", column " ++ toString (columnOf text.toList p) ++ "): " ++ d.message

def toDocument (d : Diagnostic) (text : Option String) : Document :=
  .object <|
    [("error", .text d.label), ("message", .text (d.friendly text))] ++
      (d.position.map fun p => ("position", .integer p)).toList ++
      (d.length.map fun n => ("length", .integer n)).toList ++
      (d.suggestion.map fun s => ("suggestion", .text s)).toList

end Diagnostic

namespace Fault

private def atToken (f : Fault) (t : Token) (suggestion : Option String) : Diagnostic :=
  .syntactic f.message t.position t.length suggestion

/-- How a fault of an expression is shown; the faults of a request about numbers and names have no
place in an expression. -/
def diagnostic? (f : Fault) : Option Diagnostic :=
  match f with
  | unknownCharacter c position => some (.lexical f.message position (Diagnostic.hint? c))
  | emptyExpression => some (.syntactic f.message 0 0 none)
  | unexpectedToken t | missingOperand t => some (f.atToken t none)
  | nestedTooDeeply t =>
    some (f.atToken t (some ("Use at most " ++ toString maxDepth ++ " levels of parentheses")))
  | missingClosing t => some (f.atToken t (some "Add a ) to close the parenthesis"))
  | undefinedVariable name => some (.undefinedVariable name)
  | tooManyVariables activity count =>
    some (.tooManyVariables count activity.limit activity.name)
  | wrongNameCount .. | mintermOutOfRange .. | uncoverable .. | unmappable | unassigned ..
  | badBinding .. => none

end Fault

end Switching
