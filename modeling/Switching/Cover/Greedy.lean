import Switching.Implicant

/-!
Covers chosen step by step. The implicants that are the only cover of some minterm are taken first.
Then, as long as it covers anything new, the implicant that covers the most of what is left is
taken, the earliest one where several do.
-/
namespace Switching

structure Candidate where
  place : Nat
  implicant : Implicant
  deriving DecidableEq, Repr

namespace Candidate

def ofList (is : List Implicant) : List Candidate :=
  is.zipIdx.map fun e => ⟨e.2, e.1⟩

def covers (c : Candidate) (m : Nat) : Bool := c.implicant.covers m

/-- The minterm is one of those that the implicant was built from. -/
def holds (c : Candidate) (m : Nat) : Bool := c.implicant.minterms.contains m

def gain (left : List Nat) (c : Candidate) : Nat := left.countP c.covers

def sole? (cs : List Candidate) (m : Nat) : Option Candidate :=
  match cs.filter (·.covers m) with
  | [c] => some c
  | _ => none

/-- The candidates without which some minterm is not covered. -/
def essential (cs : List Candidate) (minterms : List Nat) : List Candidate :=
  (minterms.filterMap (sole? cs)).eraseDups

def leader? (left : List Nat) : List Candidate → Option Candidate
  | [] => none
  | c :: cs =>
    match leader? left cs with
    | none => some c
    | some d => if d.gain left ≤ c.gain left then some c else some d

def leaves (c : Candidate) (left : List Nat) : List Nat := left.filter (!c.covers ·)

theorem gain_add_length_leaves (c : Candidate) (left : List Nat) :
    c.gain left + (c.leaves left).length = left.length := by
  have parts := List.length_eq_countP_add_countP c.covers (l := left)
  rw [gain, leaves, ← List.countP_eq_length_filter, parts]
  simp

theorem length_leaves_lt {c : Candidate} {left : List Nat} (h : 0 < c.gain left) :
    (c.leaves left).length < left.length := by
  have parts := c.gain_add_length_leaves left
  omega

def others (c : Candidate) (cs : List Candidate) : List Candidate := cs.filter (· != c)

/-- Take the leader as long as it covers something. The result is what was taken, and the minterms
that are left. -/
def greedy (cs : List Candidate) (left : List Nat) : List Candidate × List Nat :=
  match leader? left cs with
  | none => ([], left)
  | some c =>
    if _ : 0 < c.gain left then
      let rest := greedy (c.others cs) (c.leaves left)
      (c :: rest.1, rest.2)
    else ([], left)
  termination_by left.length
  decreasing_by exact length_leaves_lt ‹_›

end Candidate

structure Cover where
  chosen : List Implicant
  uncovered : List Nat
  deriving DecidableEq, Repr

namespace Cover

/-- The cover that is chosen step by step: first what is essential, then what gains most. The
minterms that an essential implicant was built from count as covered by it. -/
def greedy (is : List Implicant) (minterms : List Nat) : Cover :=
  let cs := Candidate.ofList is
  let first := Candidate.essential cs minterms
  let left := minterms.filter fun m => !first.any (·.holds m)
  let rest := Candidate.greedy (cs.filter (!first.contains ·)) left
  ⟨(first ++ rest.1).map (·.implicant), rest.2⟩

end Cover

end Switching
