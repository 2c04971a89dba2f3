import Switching.Fault
import Switching.Text.CharClass

/-!
From text to tokens. Blanks separate tokens and are skipped. A word is a letter and the letters,
digits and underscores behind it: an operator or a constant if its spelling says so in any letter
case, else a name in upper case. Every other token is a single sign or digit.
-/
namespace Switching

def isWordChar (c : Char) : Bool := c.isAlphanum || c == '_'

/-- The letters outside ASCII that some letter case turns into one of ASCII. A keyword is not
recognised in front of them, though no word goes on with them. -/
def foldsToLetter (c : Char) : Bool :=
  c == '\u0130' || c == '\u0131' || c == '\u017f' || c == '\u212a'

/-- Nothing in front of this text could be part of a longer word. -/
def endsKeyword : List Char → Bool
  | [] => true
  | c :: _ => !isWordChar c && !foldsToLetter c

/-- The front of a text: a blank, or the spelling of a token. The spelling has `extra` characters
behind the first one. -/
inductive Lexeme
  | blank
  | token (kind : TokenKind) (text : String) (extra : Nat)
  deriving DecidableEq, Repr

namespace Lexeme

def extra : Lexeme → Nat
  | blank => 0
  | token _ _ n => n

def toTokens (position : Nat) : Lexeme → List Token
  | blank => []
  | token kind text n => [⟨kind, text, position, n + 1⟩]

def keyword? (w : String) : Option (TokenKind × Option String) :=
  match Gate.all.find? (·.name == w) with
  | some g => some (.gate g, none)
  | none =>
    if w == "NOT" then some (.negation, none)
    else if w == "TRUE" then some (.constant, some "1")
    else if w == "FALSE" then some (.constant, some "0")
    else none

/-- The word `false` with the long `s`, which no letter case keeps apart from the plain one; only
its first three letters are letters of ASCII. -/
def isLongFalse (w : String) : List Char → Bool
  | s :: e :: rest => w == "FAL" && s == '\u017f' && e.toUpper == 'E' && endsKeyword rest
  | _ => false

def word (c : Char) (cs : List Char) : Lexeme :=
  let tail := cs.takeWhile isWordChar
  let rest := cs.dropWhile isWordChar
  let spelling := String.ofList (c :: tail)
  let w := String.ofList ((c :: tail).map Char.toUpper)
  if isLongFalse w rest then .token .constant "0" (tail.length + 2)
  else
    match keyword? w with
    | some (kind, text?) =>
      if endsKeyword rest then .token kind (text?.getD spelling) tail.length
      else .token .name w tail.length
    | none => .token .name w tail.length

def sign? (c : Char) : Option TokenKind :=
  if c = '(' then some .opening
  else if c = ')' then some .closing
  else if c = '&' || c = '∧' || c = '*' then some (.gate .and)
  else if c = '|' || c = '∨' || c = '+' then some (.gate .or)
  else if c = '~' || c = '!' || c = '¬' || c = '\'' then some .negation
  else if c = '^' || c = '⊕' then some (.gate .xor)
  else if c = '↑' then some (.gate .nand)
  else if c = '↓' then some (.gate .nor)
  else if c = '⊙' || c = '↔' then some (.gate .xnor)
  else none

/-- The lexeme at the front of the text `c :: cs`. A digit `0` or `1` does not begin a longer
word, and a point before a digit is no operator. -/
def front? (c : Char) (cs : List Char) : Option Lexeme :=
  if isBlank c then some .blank
  else if c.isAlpha then some (word c cs)
  else if c = '0' || c = '1' then
    if (cs.head?.map isWordChar).getD false then none
    else some (.token .constant c.toString 0)
  else if c = '.' then
    if (cs.head?.map Char.isDigit).getD false then none
    else some (.token (.gate .and) "." 0)
  else (sign? c).map fun kind => .token kind c.toString 0

end Lexeme

namespace Token

def scanFrom (position : Nat) : List Char → Except Fault (List Token)
  | [] => .ok [.finish position]
  | c :: cs =>
    match Lexeme.front? c cs with
    | none => .error (.unknownCharacter c position)
    | some lexeme =>
      match scanFrom (position + lexeme.extra + 1) (cs.drop lexeme.extra) with
      | .error f => .error f
      | .ok ts => .ok (lexeme.toTokens position ++ ts)
  termination_by cs => cs.length
  decreasing_by simp only [List.length_drop, List.length_cons]; omega

def scan (text : String) : Except Fault (List Token) := scanFrom 0 text.toList

end Token

end Switching
