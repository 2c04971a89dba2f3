import Switching.Implicant

/-!
The prime implicants of a set of minterms. Implicants are joined in rounds: a round joins every two
that can be, and what joins with nothing is prime. Every round leaves one literal less, so there are
no more rounds than positions in a pattern.
-/
namespace Switching

namespace Implicant

def firstOfEach : List Implicant → List Implicant
  | [] => []
  | i :: is => i :: (firstOfEach is).filter fun j => !i.agrees j

def layer (ones : Nat) (is : List Implicant) : List Implicant :=
  is.filter (·.pattern.ones == ones)

def maxLength (is : List Implicant) : Nat := (is.map (·.pattern.length)).foldr max 0

def joinsOfLayer (is : List Implicant) (ones : Nat) : List Implicant :=
  (layer ones is).flatMap fun i => (layer (ones + 1) is).filterMap i.merge?

/-- What the implicants join to. Two of them join only if they are of neighbouring layers, so the
layers are taken in pairs, from the fewest ones up. -/
def joins (is : List Implicant) : List Implicant :=
  firstOfEach ((List.range (maxLength is)).flatMap (joinsOfLayer is))

def joinsWithin (is : List Implicant) (i : Implicant) : Bool :=
  is.any fun j => (i.pattern.merge? j.pattern).isSome

/-- A round of joining: how many implicants joined with another, and what they joined to. -/
structure Round where
  used : Nat
  made : List Implicant
  deriving DecidableEq, Repr

/-- Join in rounds while anything joins, given a bound on the number of literals. The result is what
joined with nothing, in the order of the rounds, and the rounds in which something joined. -/
def joinRounds : Nat → List Implicant → List Implicant × List Round
  | 0, is => (is, [])
  | bound + 1, is =>
    match joins is with
    | [] => (is, [])
    | made =>
      let rest := joinRounds bound made
      (is.filter (fun i => !joinsWithin is i) ++ rest.1,
        ⟨is.countP (joinsWithin is), made⟩ :: rest.2)

def initial (minterms : List Nat) (width : Nat) : List Implicant :=
  minterms.map (ofMinterm width)

def rounds (minterms : List Nat) (width : Nat) : List Round :=
  let is := initial minterms width
  (joinRounds (maxLength is) is).2

def primes (minterms : List Nat) (width : Nat) : List Implicant :=
  let is := initial minterms width
  (firstOfEach (joinRounds (maxLength is) is).1).map fun i => { i with isPrime := true }

end Implicant

end Switching
