import Switching.Token

/-!
Faults: everything that an operation of the library can refuse, by its cause, and the wording of
each.
-/
namespace Switching

inductive Activity
  | table
  | minimization
  deriving DecidableEq, Repr

namespace Activity

def name : Activity → String
  | table => "truth table"
  | minimization => "minimization"

def limit : Activity → Nat
  | table => 8
  | minimization => 6

end Activity

def maxDepth : Nat := 100

inductive Fault
  | unknownCharacter (character : Char) (position : Nat)
  | emptyExpression
  /-- The expression is complete before this token. -/
  | unexpectedToken (token : Token)
  | nestedTooDeeply (opening : Token)
  /-- This token stands where a parenthesis has to be closed. -/
  | missingClosing (found : Token)
  | missingOperand (found : Token)
  | undefinedVariable (name : String)
  | tooManyVariables (activity : Activity) (count : Nat)
  | wrongNameCount (expected : Int) (given : Nat)
  | mintermOutOfRange (minterm : Int) (width : Nat)
  /-- No implicant at hand covers the minterm, or no choice of them was found to cover all. -/
  | uncoverable (minterm? : Option Nat)
  | unmappable
  | unassigned (name : String)
  | badBinding (item : String)
  deriving DecidableEq, Repr

namespace Fault

def mapSizes : Nat × Nat := (2, 4)

def message : Fault → String
  | unknownCharacter c _ => "Unexpected character: '" ++ c.toString ++ "'"
  | emptyExpression => "Expression cannot be empty"
  | unexpectedToken t => "Unexpected token: " ++ t.text
  | nestedTooDeeply _ => "Expression is nested too deeply"
  | missingClosing _ => "Missing closing parenthesis"
  | missingOperand t =>
    if t.isFinish then "Unexpected end of expression"
    else "Expected variable or value, got: " ++ t.text
  | undefinedVariable name => "Undefined variable: " ++ name
  | tooManyVariables activity count =>
    "Too many variables for " ++ activity.name ++ " (" ++ toString count ++
      "). Maximum supported: " ++ toString activity.limit
  | wrongNameCount expected given =>
    "Expected " ++ toString expected ++ " variable names, got " ++ toString given
  | mintermOutOfRange m width =>
    "Minterm " ++ toString m ++ " out of range for " ++ toString width ++ " variables"
  | uncoverable (some m) => "No implicant covers minterm " ++ toString m
  | uncoverable none => "MaxSAT solver found no solution"
  | unmappable =>
    "K-map generation supports " ++ toString mapSizes.1 ++ "-" ++ toString mapSizes.2 ++
      " variables only"
  | unassigned name => quoted name
  | badBinding item => "Bad binding " ++ quoted item ++ ", expected NAME=0 or NAME=1"

end Fault

end Switching
