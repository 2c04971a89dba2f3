import Switching.Fault
import Switching.Formula

/-!
Readers: a place in a token list together with what reading has found so far. A reader never goes
past the first end marker of its list.
-/
namespace Switching

/-- A place in a token list, how many parentheses are open, the names met so far, and the number
for the next node. The tokens `ahead` stand before the end marker `stop`; those of `past` are read,
the latest first. `last` closes the list, and is what stands before its first token. -/
structure Reader where
  past : List Token
  ahead : List Token
  stop : Token
  last : Token
  depth : Nat
  names : List String
  nextId : Nat
  deriving DecidableEq, Repr

namespace Reader

/-- The end marker of a token list: its last token, or one behind it. -/
def endMarker (tokens : List Token) : Token :=
  match tokens.getLast? with
  | some t => if t.isFinish then t else .finish t.stop
  | none => .finish 0

def ofTokens (tokens : List Token) : Reader where
  past := []
  ahead := tokens.takeWhile (!·.isFinish)
  stop := (tokens.find? (·.isFinish)).getD (endMarker tokens)
  last := endMarker tokens
  depth := 0
  names := []
  nextId := 1

def index (r : Reader) : Nat := r.past.length

def isAtEnd (r : Reader) : Bool := r.ahead.isEmpty

def peek (r : Reader) : Token := r.ahead.head?.getD r.stop

def previous (r : Reader) : Token := r.past.head?.getD r.last

/-- Read one token, or stay at the end marker. -/
def advance (r : Reader) : Reader :=
  match r.ahead with
  | [] => r
  | t :: ts => { r with past := t :: r.past, ahead := ts }

def skip : Nat → Reader → Reader
  | 0, r => r
  | n + 1, r => skip n r.advance

def accept (kinds : List TokenKind) (r : Reader) : Bool × Reader :=
  if kinds.contains r.peek.kind then (true, r.advance) else (false, r)

def deepen (r : Reader) : Reader := { r with depth := r.depth + 1 }

def surface (r : Reader) : Reader := { r with depth := r.depth - 1 }

def note (name : String) (r : Reader) : Reader := { r with names := insertOrdered name r.names }

def bump (r : Reader) : Reader := { r with nextId := r.nextId + 1 }

theorem advance_of_cons {r : Reader} {t : Token} {ts : List Token} (h : r.ahead = t :: ts) :
    r.advance = { r with past := t :: r.past, ahead := ts } := by
  simp [advance, h]

@[simp]
theorem ahead_advance (r : Reader) : r.advance.ahead = r.ahead.tail := by
  rw [advance]; split <;> simp_all

@[simp]
theorem ahead_skip (n : Nat) (r : Reader) : (r.skip n).ahead = r.ahead.drop n := by
  induction n generalizing r with
  | zero => simp [skip]
  | succ n ih => simp [skip, ih]

@[simp]
theorem ahead_deepen (r : Reader) : r.deepen.ahead = r.ahead := rfl

@[simp]
theorem ahead_surface (r : Reader) : r.surface.ahead = r.ahead := rfl

@[simp]
theorem ahead_note (name : String) (r : Reader) : (r.note name).ahead = r.ahead := rfl

@[simp]
theorem ahead_bump (r : Reader) : r.bump.ahead = r.ahead := rfl

end Reader

end Switching
