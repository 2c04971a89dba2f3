import Switching.Grammar.Reader
import Switching.Token.Scan

/-!
Reading formulas from tokens. From the loosest to the tightest binding:

* an expression is a chain of exclusive chains, joined by OR and NOR;
* an exclusive chain is a chain of products, joined by XOR and XNOR;
* a product is a chain of operands, joined by AND, NAND or nothing at all, which means AND;
* an operand is any number of negations, then a name, a constant or an expression between
  parentheses, then any number of primes.

Chains lean to the left. A prime negates before the negations in front. Nodes are numbered in the
order in which they are completed, and a fault leaves the reader where it arose.
-/
namespace Switching

/-- What a reading step gives: a formula and a reader with fewer than `bound` tokens ahead, or a
fault and the reader as the fault left it. -/
inductive Reply (bound : Nat)
  | formula (f : Formula) (rest : Reader) (shorter : rest.ahead.length < bound)
  | fault (cause : Fault) (rest : Reader)

namespace Reply

def outcome {bound : Nat} : Reply bound → Except Fault Formula × Reader
  | formula f rest _ => (.ok f, rest)
  | fault cause rest => (.error cause, rest)

def mono {bound bound' : Nat} (h : bound ≤ bound') : Reply bound → Reply bound'
  | formula f rest shorter => formula f rest (Nat.lt_of_lt_of_le shorter h)
  | fault cause rest => fault cause rest

@[simp]
theorem outcome_mono {bound bound' : Nat} (h : bound ≤ bound') (r : Reply bound) :
    (r.mono h).outcome = r.outcome := by cases r <;> rfl

end Reply

namespace Reader

def negate : Nat → Formula → Reader → Formula × Reader
  | 0, f, r => (f, r)
  | n + 1, f, r => negate n (.not f r.nextId) r.bump

def join (k : Gate) (left right : Formula) (r : Reader) : Formula × Reader :=
  (.gate k left right r.nextId, r.bump)

@[simp]
theorem ahead_negate (n : Nat) (f : Formula) (r : Reader) :
    (negate n f r).2.ahead = r.ahead := by
  induction n generalizing f r with
  | zero => rfl
  | succ n ih => simp [negate, ih]

@[simp]
theorem ahead_join (k : Gate) (left right : Formula) (r : Reader) :
    (join k left right r).2.ahead = r.ahead := rfl

def negations (r : Reader) : Nat := (r.ahead.takeWhile Token.isNegation).length

def primes (r : Reader) : Nat := (r.ahead.takeWhile Token.isPrime).length

def leaf (f : Int → Formula) (r : Reader) : Formula × Reader :=
  (f r.nextId, r.advance.bump)

@[simp]
theorem ahead_leaf (f : Int → Formula) (r : Reader) :
    (leaf f r).2.ahead = r.ahead.tail := by simp [leaf]

/-- The gate that joins the operands of a tier in front of this token, and whether the token is the
gate itself: a product may leave its gate out. -/
def joint? (tier : Tier) (t : Token) : Option (Gate × Bool) :=
  match t.kind with
  | .gate k => if k.tier = tier then some (k, true) else none
  | kind => if tier = .product && kind.startsOperand then some (.and, false) else none

mutual

def tier (level : Tier) (r : Reader) : Reply r.ahead.length :=
  match operand level r with
  | .fault cause rest => .fault cause rest
  | .formula f rest shorter => (chain level f rest).mono shorter
  termination_by r.ahead.length * 9 + 2 * (3 - level.rank) + 3

def operand (level : Tier) (r : Reader) : Reply r.ahead.length :=
  match level with
  | .sum => tier .exclusive r
  | .exclusive => tier .product r
  | .product => unary r
  termination_by r.ahead.length * 9 + 2 * (3 - level.rank) + 2
  decreasing_by all_goals simp [Tier.rank]

/-- Go on with a chain of the tier that has `left` as its front. -/
def chain (level : Tier) (left : Formula) (r : Reader) : Reply (r.ahead.length + 1) :=
  match h : r.ahead with
  | [] => .formula left r (by simp [h])
  | t :: ts =>
    match joint? level t with
    | none => .formula left r (by simp [h])
    | some (k, written) =>
      match operand level (if written then r.advance else r) with
      | .fault cause rest => .fault cause rest
      | .formula right rest shorter =>
        have : rest.ahead.length < (t :: ts).length := by
          have : (if written then r.advance else r).ahead.length ≤ r.ahead.length := by
            cases written <;> simp
          rw [h] at this
          omega
        (chain level (join k left right rest).1 (join k left right rest).2).mono
          (by simp only [ahead_join]; omega)
  termination_by r.ahead.length * 9 + 8
  decreasing_by
    · cases written <;> cases level <;> simp [Tier.rank] <;> omega
    · simp_all

def unary (r : Reader) : Reply r.ahead.length :=
  match primary (r.skip r.negations) with
  | .fault cause rest => .fault cause rest
  | .formula f rest shorter =>
    .formula (negate (rest.primes + r.negations) f (rest.skip rest.primes)).1
      (negate (rest.primes + r.negations) f (rest.skip rest.primes)).2
      (by simp at shorter ⊢; omega)
  termination_by r.ahead.length * 9 + 1
  decreasing_by simp only [ahead_skip, List.length_drop]; omega

def primary (r : Reader) : Reply r.ahead.length :=
  match h : r.ahead with
  | [] => .fault (.missingOperand r.stop) r
  | t :: ts =>
    match t.kind with
    | .constant =>
      .formula (leaf (.const (t.text == "1")) r).1 (leaf (.const (t.text == "1")) r).2
        (by simp [h])
    | .name =>
      .formula (leaf (.var t.text) r).1 ((leaf (.var t.text) r).2.note t.text) (by simp [h])
    | .opening =>
      if maxDepth < r.depth + 1 then .fault (.nestedTooDeeply t) r.advance.deepen
      else
        match tier .sum r.advance.deepen with
        | .fault cause rest => .fault cause rest
        | .formula f rest shorter =>
          if rest.peek.kind = .closing then
            .formula f rest.surface.advance (by simp at shorter ⊢; simp [h] at shorter; omega)
          else .fault (.missingClosing rest.peek) rest.surface
    | _ => .fault (.missingOperand t) r
  termination_by r.ahead.length * 9
  decreasing_by simp [h, Tier.rank]; omega

end

def expression (r : Reader) : Reply r.ahead.length := tier .sum r

end Reader

structure Parsed where
  formula : Formula
  names : List String
  deriving DecidableEq, Repr

namespace Reader

def parse (r : Reader) : Except Fault Parsed × Reader :=
  if r.isAtEnd then (.error .emptyExpression, r)
  else
    match r.expression with
    | .fault cause rest => (.error cause, rest)
    | .formula f rest _ =>
      if rest.isAtEnd then (.ok ⟨f, rest.names⟩, rest)
      else (.error (.unexpectedToken rest.peek), rest)

end Reader

namespace Formula

def ofTokens (tokens : List Token) : Except Fault Parsed := (Reader.ofTokens tokens).parse.1

def ofText (text : String) : Except Fault Parsed :=
  match Token.scan text with
  | .error f => .error f
  | .ok tokens => ofTokens tokens

end Formula

end Switching
