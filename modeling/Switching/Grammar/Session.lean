import Switching.Grammar.Parse

/-!
Sessions: any sequence of moves of one reader. A move that fails leaves the reader where the fault
arose, and the session goes on from there.
-/
namespace Switching

namespace Reader

inductive Move
  | accept (kinds : List TokenKind)
  | peek
  | previous
  | advance
  | isAtEnd
  | parse
  | tier (level : Tier)
  | unary
  | primary
  deriving DecidableEq, Repr

inductive Sight
  | flag (value : Bool)
  | token (t : Token)
  | formula (f : Formula)
  | parsed (p : Parsed)
  | fault (cause : Fault)
  deriving DecidableEq, Repr

namespace Sight

def ofOutcome : Except Fault Formula × Reader → Sight × Reader
  | (.ok f, rest) => (formula f, rest)
  | (.error cause, rest) => (fault cause, rest)

end Sight

def perform (r : Reader) : Move → Sight × Reader
  | .accept kinds => (.flag (r.accept kinds).1, (r.accept kinds).2)
  | .peek => (.token r.peek, r)
  | .previous => (.token r.previous, r)
  | .advance => (.token r.advance.previous, r.advance)
  | .isAtEnd => (.flag r.isAtEnd, r)
  | .parse =>
    match r.parse with
    | (.ok p, rest) => (.parsed p, rest)
    | (.error cause, rest) => (.fault cause, rest)
  | .tier level => Sight.ofOutcome (r.tier level).outcome
  | .unary => Sight.ofOutcome r.unary.outcome
  | .primary => Sight.ofOutcome r.primary.outcome

def performAll (r : Reader) : List Move → List (Sight × Reader)
  | [] => []
  | move :: moves =>
    let next := r.perform move
    next :: next.2.performAll moves

end Reader

end Switching
