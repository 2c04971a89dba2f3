import Switching.Gate
import Switching.Text.Quoted

/-!
Tokens: the lexical units of an expression, each with its place in the text.
-/
namespace Switching

inductive TokenKind
  | name
  | constant
  | gate (g : Gate)
  | negation
  | opening
  | closing
  | finish
  deriving DecidableEq, Repr

namespace TokenKind

def all : List TokenKind :=
  [name, constant] ++ Gate.all.map gate ++ [negation, opening, closing, finish]

def label : TokenKind → String
  | name => "VARIABLE"
  | constant => "LITERAL"
  | gate g => g.name
  | negation => "NOT"
  | opening => "LPAREN"
  | closing => "RPAREN"
  | finish => "EOF"

def ofLabel? (s : String) : Option TokenKind := all.find? (·.label == s)

def isGate : TokenKind → Bool
  | gate _ => true
  | _ => false

/-- The binding strength of an operator, and 0 for what is no operator. -/
def precedence : TokenKind → Nat
  | gate .or | gate .nor => 1
  | gate .xor | gate .xnor => 2
  | gate .and | gate .nand => 3
  | negation => 4
  | _ => 0

def startsOperand : TokenKind → Bool
  | name | constant | opening | negation => true
  | _ => false

end TokenKind

/-- A lexical unit, with the place and the length of its spelling in the text. Names are in upper
case, and a constant is `0` or `1` however it was spelled. -/
structure Token where
  kind : TokenKind
  text : String
  position : Nat
  length : Nat
  deriving DecidableEq, Repr

namespace Token

def finish (position : Nat) : Token := ⟨.finish, "", position, 0⟩

/-- The prime: the negation sign that is written behind its operand. -/
def isPrime (t : Token) : Bool := t.kind == .negation && t.text == "'"

def isNegation (t : Token) : Bool := t.kind == .negation

def isFinish (t : Token) : Bool := t.kind == .finish

def stop (t : Token) : Nat := t.position + t.length

def describe (t : Token) : String :=
  "Token(" ++ t.kind.label ++ ", " ++ quoted t.text ++ ", pos=" ++ toString t.position ++ ")"

end Token

end Switching
