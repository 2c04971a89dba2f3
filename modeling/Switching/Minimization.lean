import Switching.Cover.Exact
import Switching.Document
import Switching.Primes

/-!
Minimal sums of products: the prime implicants of a set of minterms, a cover chosen from them, and
the steps by which both were found.
-/
namespace Switching

inductive Method
  | greedy
  | exact
  deriving DecidableEq, Repr

namespace Method

def name : Method → String
  | greedy => "greedy"
  | exact => "exact"

def ofExact : Bool → Method
  | false => greedy
  | true => exact

end Method

inductive Step
  | alwaysZero
  | alwaysOne
  | start (initial : List Implicant)
  | round (number : Nat) (r : Implicant.Round)
  | found (primes : List Implicant)
  | chosen (cover : List Implicant)
  | uncovered (minterms : List Nat)
  deriving DecidableEq, Repr

namespace Step

def description : Step → String
  | alwaysZero => "No minterms - output is always 0"
  | alwaysOne => "All minterms present - output is always 1"
  | start _ => "Initial minterms converted to binary"
  | round number r =>
    "Iteration " ++ toString number ++ ": Combined " ++ toString r.used ++ " implicants into " ++
      toString r.made.length ++ " new implicants"
  | found primes => "Found " ++ toString primes.length ++ " prime implicants"
  | chosen cover => "Selected " ++ toString cover.length ++ " essential prime implicants"
  | uncovered minterms => "Minterms left uncovered: " ++ numberList minterms

private def binaryMember (i : Implicant) : String × Document := ("binary", .text i.pattern.text)

private def termDocument (names : List String) (i : Implicant) : Document :=
  .object [("minterms", .nats i.minterms), binaryMember i, ("term", .text (i.term names))]

def data (names : List String) : Step → Document
  | alwaysZero | alwaysOne => .null
  | start initial =>
    .list (initial.map fun i => .object [("minterm", .nat (i.minterms.headD 0)), binaryMember i])
  | round _ r =>
    .list (r.made.map fun i => .object [("minterms", .nats i.minterms), binaryMember i])
  | found is | chosen is => .list (is.map (termDocument names))
  | uncovered minterms => .nats minterms

def toDocument (names : List String) (s : Step) : Document :=
  .object [("description", .text s.description), ("data", s.data names)]

def ofPrimes (minterms : List Nat) (width : Nat) : List Step :=
  start (Implicant.initial minterms width) ::
    (Implicant.rounds minterms width).mapIdx fun i r => round (i + 1) r

end Step

/-- A minimal sum of products of one function, and how it was found. -/
structure Minimization where
  names : List String
  minterms : List Nat
  primes : List Implicant
  chosen : List Implicant
  expression : String
  method : Method
  steps : List Step
  uncovered : List Nat
  deriving DecidableEq, Repr

namespace Minimization

def isComplete (m : Minimization) : Bool := m.uncovered.isEmpty

def literalCount (m : Minimization) : Nat := total (m.chosen.map (·.literals))

def toFormula (m : Minimization) : Formula :=
  if m.expression = "1" then .const true 0 else Implicant.sumFormula m.chosen m.names

def defaultNames (width : Nat) : List String :=
  (List.range width).map fun i => (Char.ofNat ('A'.toNat + i)).toString

def cover (method : Method) (primes : List Implicant) (minterms : List Nat)
    (solve : Solver := .branchAndBound) : Except Fault Cover :=
  match method with
  | .greedy => .ok (Cover.greedy primes minterms)
  | .exact =>
    match Cover.exact primes minterms solve with
    | .ok chosen => .ok ⟨chosen, minterms.filter fun m => !Implicant.sumCovers chosen m⟩
    | .error f => .error f

/-- A function that is constant has no implicants to choose from. -/
def ofConstant (method : Method) (names : List String) (minterms : List Nat) (value : Bool) :
    Minimization where
  names := names
  minterms := minterms
  primes := []
  chosen := []
  expression := bitText value
  method := method
  steps := [if value then .alwaysOne else .alwaysZero]
  uncovered := []

/-- Minimize the function that is 1 at the given minterms, an ascending list without repetition of
numbers below two to the number of names. -/
def ofOnSet (method : Method) (names : List String) (onSet : List Nat)
    (solve : Solver := .branchAndBound) : Except Fault Minimization :=
  if onSet = [] then .ok (ofConstant method names onSet false)
  else if onSet.length = powerOfTwo names.length then .ok (ofConstant method names onSet true)
  else
    let primes := Implicant.primes onSet names.length
    match cover method primes onSet solve with
    | .error f => .error f
    | .ok c =>
      .ok
        { names := names
          minterms := onSet
          primes := primes
          chosen := c.chosen
          expression := Implicant.sumText c.chosen names
          method := method
          steps :=
            Step.ofPrimes onSet names.length ++ [.found primes, .chosen c.chosen] ++
              if c.uncovered = [] then [] else [.uncovered c.uncovered]
          uncovered := c.uncovered }

end Minimization

/-- Minimize the function of `width` variables that is 1 at the given minterms. The names are by
default A, B, C and so on. -/
def minimize (method : Method) (minterms : List Int) (width : Int)
    (names? : Option (List String) := none) (solve : Solver := .branchAndBound) :
    Except Fault Minimization :=
  if Activity.minimization.limit < width then
    .error (.tooManyVariables .minimization width.toNat)
  else
    let names := names?.getD (Minimization.defaultNames width.toNat)
    if names.length ≠ width then .error (.wrongNameCount width names.length)
    else
      let onSet := orderedSet minterms
      match onSet.find? fun m => m < 0 || Int.ofNat (powerOfTwo names.length) ≤ m with
      | some m => .error (.mintermOutOfRange m names.length)
      | none => Minimization.ofOnSet method names (onSet.map Int.toNat) solve

end Switching
