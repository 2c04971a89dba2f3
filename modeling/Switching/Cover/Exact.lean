import Switching.Cover.Covering
import Switching.Fault

/-!
Covers of the least price. The search branches on the row that the fewest columns mark: one of these
columns has to be chosen, and once it is tried the others are tried without it. A branch is given up
when the rows that no column marks together are already too dear.
-/
namespace Switching

/-- A candidate as the search sees it: bit `i` of `marks` says whether clause `i` lists it. The
clauses are the rows. -/
structure Column where
  place : Nat
  price : Nat
  marks : Nat
  deriving DecidableEq, Repr

def packBits : List Bool → Nat
  | [] => 0
  | b :: bs => b.toNat + 2 * packBits bs

theorem testBit_packBits (bs : List Bool) (i : Nat) :
    (packBits bs).testBit i = (bs[i]?.getD false) := by
  induction bs generalizing i with
  | nil => simp [packBits]
  | cons b bs ih =>
    cases i with
    | zero => cases b <;> simp [packBits, Nat.testBit_zero]
    | succ i =>
      have h : (b.toNat + 2 * packBits bs) / 2 = packBits bs := by
        have := b.toNat_lt
        omega
      simp [packBits, Nat.testBit_succ, h, ih]

namespace Column

def ofCovering (p : Covering) : List Column :=
  p.prices.zipIdx.map fun e => ⟨e.2, e.1, packBits (p.clauses.map (·.contains e.2))⟩

def marked (c : Column) (row : Nat) : Bool := c.marks.testBit row

def leaves (c : Column) (rows : List Nat) : List Nat := rows.filter (!c.marked ·)

theorem length_leaves_le (c : Column) (rows : List Nat) : (c.leaves rows).length ≤ rows.length :=
  List.length_filter_le _ _

def others (c : Column) (cs : List Column) : List Column := cs.filter (· != c)

/-- The least price among the columns that mark a row; nothing is known of a row without one. -/
def leastPrice (cs : List Column) (row : Nat) : Nat :=
  ((cs.filter (·.marked row)).map (·.price)).min?.getD 0

/-- The sum of the least prices of rows, skipping every row that shares a column with one that was
counted before. `met` holds the rows that the columns of these rows mark. -/
def boundFrom (cs : List Column) (met : Nat) : List Nat → Nat
  | [] => 0
  | row :: rows =>
    if met.testBit row then boundFrom cs met rows
    else
      let met' := (cs.filter (·.marked row)).foldl (fun m c => m ||| c.marks) met
      leastPrice cs row + boundFrom cs met' rows

/-- What the rows cost at least: no column marks two of the rows that are counted. -/
def bound (cs : List Column) (rows : List Nat) : Nat := boundFrom cs 0 rows

def scarcestFirst (cs : List Column) (rows : List Nat) : List Nat :=
  ((rows.map fun row => (cs.countP (·.marked row), row)).mergeSort fun a b => a.1 ≤ b.1).map
    Prod.snd

@[simp]
theorem length_scarcestFirst (cs : List Column) (rows : List Nat) :
    (scarcestFirst cs rows).length = rows.length := by
  simp [scarcestFirst]

end Column

structure Selection where
  price : Nat
  places : List Nat
  deriving DecidableEq, Repr

namespace Selection

open Column

def add (c : Column) (s : Selection) : Selection := ⟨c.price + s.price, c.place :: s.places⟩

mutual

/-- The cheapest selection from the columns that marks all the rows and costs less than the limit,
if there is one. The search branches on the first row. -/
def search (cs : List Column) (rows : List Nat) (limit : Nat) : Option Selection :=
  match rows with
  | [] => if limit = 0 then none else some ⟨0, []⟩
  | row :: rest =>
    if limit ≤ bound cs (row :: rest) then none else searchEach cs row rest cs limit none
  termination_by (rows.length, 1, 0)

/-- The cheapest selection that marks `row` and all of `rest`, costs less than the limit and has one
of the columns `left` for the row; `best` if there is none. A column that was tried is not used
again. -/
def searchEach (cs : List Column) (row : Nat) (rest : List Nat) (left : List Column) (limit : Nat)
    (best : Option Selection) : Option Selection :=
  match left with
  | [] => best
  | c :: left =>
    if c.marked row then
      let cs' := c.others cs
      let found :=
        if c.price < limit then
          search cs' (scarcestFirst cs' (c.leaves rest)) (limit - c.price)
        else none
      match found with
      | some s => searchEach cs' row rest left (s.add c).price (some (s.add c))
      | none => searchEach cs' row rest left limit best
    else searchEach cs row rest left limit best
  termination_by (rest.length + 1, 0, left.length)
  decreasing_by
    · apply Prod.Lex.left
      rw [length_scarcestFirst]
      exact Nat.lt_succ_of_le (length_leaves_le c rest)
    all_goals exact Prod.Lex.right _ (Prod.Lex.right _ (Nat.lt_succ_self _))

end

def cheapest (cs : List Column) (rowCount : Nat) : Option Selection :=
  search cs (scarcestFirst cs (List.range rowCount)) (total (cs.map (·.price)) + 1)

end Selection

def Solver.branchAndBound : Solver := fun p =>
  (Selection.cheapest (Column.ofCovering p) p.clauses.length).map (·.places)

namespace Cover

def exact (is : List Implicant) (minterms : List Nat) (solve : Solver := .branchAndBound) :
    Except Fault (List Implicant) :=
  if minterms = [] then .ok []
  else
    match minterms.find? fun m => !is.any (·.covers m) with
    | some m => .error (.uncoverable (some m))
    | none =>
      match solve (.ofImplicants is minterms) with
      | some places =>
        .ok (((Candidate.ofList is).filter fun c => places.contains c.place).map (·.implicant))
      | none => .error (.uncoverable none)

end Cover

end Switching
