import Switching.Implicant
import Switching.Karnaugh.Map

/-!
Groups of ones on a Karnaugh map: rectangles, which may reach across the edges, with powers of two
as sides. The largest rectangles are taken first, and one that adds no field is left out. Together
the groups cover all ones; they are not always the fewest that do.
-/
namespace Switching

/-- A rectangle of ones, the product that is 1 on it, and its minterms in ascending order. -/
structure MapGroup where
  places : List (Nat × Nat)
  term : String
  minterms : List Nat
  deriving DecidableEq, Repr

namespace MapGroup

def size (g : MapGroup) : Nat := g.places.length

def sumOfTerms (terms : List String) : String :=
  if terms = [] then "0" else " + ".intercalate terms.eraseDups

end MapGroup

namespace KarnaughMap

def sizes : List Nat := [16, 8, 4, 2, 1]

def isPowerOfTwo (n : Nat) : Bool := 0 < n && n &&& (n - 1) == 0

/-- The heights and widths of the rectangles of a size that fit on the map, the lowest first. -/
def shapes (m : KarnaughMap) (size : Nat) : List (Nat × Nat) :=
  (List.range (min size m.rowCount)).filterMap fun i =>
    let height := i + 1
    let width := size / height
    let fits := size % height = 0 && width ≤ m.columnCount
    if fits && isPowerOfTwo height && isPowerOfTwo width then some (height, width) else none

/-- The places of a rectangle that begins at a place; it goes on at the opposite edge. -/
def rectangle (m : KarnaughMap) (corner shape : Nat × Nat) : List (Nat × Nat) :=
  (List.range shape.1).flatMap fun dr =>
    (List.range shape.2).map fun dc =>
      ((corner.1 + dr) % m.rowCount, (corner.2 + dc) % m.columnCount)

def rectangles (m : KarnaughMap) : List (List (Nat × Nat)) :=
  (sizes.filter (· ≤ m.places.length)).flatMap fun size =>
    (m.shapes size).flatMap fun shape => m.places.map fun corner => m.rectangle corner shape

/-- The lists that bring something new, each taken together with all that were taken before. -/
def takeNew (covered : List (Nat × Nat)) : List (List (Nat × Nat)) → List (List (Nat × Nat))
  | [] => []
  | places :: more =>
    if places.all (covered.contains ·) then takeNew covered more
    else places :: takeNew (covered ++ places) more

def commonValue? (m : KarnaughMap) (places : List (Nat × Nat)) (name : String) : Option Bool :=
  match places.map fun p => (m.cell? p).bind (·.inputs.value? name) with
  | some b :: rest => if rest.all (· == some b) then some b else none
  | _ => none

def termOf (m : KarnaughMap) (places : List (Nat × Nat)) : String :=
  let literals := m.names.filterMap fun name =>
    (m.commonValue? places name).map fun b => if b then name else name ++ "'"
  if literals = [] then "1" else String.join literals

def mintermsOf (m : KarnaughMap) (places : List (Nat × Nat)) : List Nat :=
  (places.filterMap fun p => (m.cell? p).map (·.minterm)).mergeSort

def groups (m : KarnaughMap) : List MapGroup :=
  let ones := m.places.filter m.holdsOne
  if ones = [] then []
  else if ones.length = m.places.length then [⟨ones, "1", m.mintermsOf ones⟩]
  else
    (takeNew [] (m.rectangles.filter (·.all m.holdsOne))).map fun places =>
      ⟨places, m.termOf places, m.mintermsOf places⟩

end KarnaughMap

end Switching
