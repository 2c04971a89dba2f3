import Switching.Document
import Switching.Karnaugh.Gray
import Switching.TruthTable

/-!
Karnaugh maps: the rows of a truth table of two to four variables on a grid. The first variables
number the rows of the grid and the others its columns, both in the order of a Gray code, so that
neighbours differ in one variable and the edges of the grid meet.
-/
namespace Switching

structure MapCell where
  value : Bool
  minterm : Nat
  inputs : Assignment
  deriving DecidableEq, Repr

structure KarnaughMap where
  names : List String
  rowVariables : List String
  columnVariables : List String
  rowHeaders : List (List Bool)
  columnHeaders : List (List Bool)
  cells : List (List MapCell)
  deriving DecidableEq, Repr

namespace KarnaughMap

def headers (width : Nat) : List (List Bool) :=
  (List.range (powerOfTwo width)).map fun p => grayCode width (p : Nat)

def cellAt (t : TruthTable) (rowVariables columnVariables : List String)
    (rowCode columnCode : List Bool) : Except Fault MapCell :=
  let inputs := Assignment.ofList (rowVariables.zip rowCode ++ columnVariables.zip columnCode)
  match inputs.number t.names with
  | .ok m => .ok ⟨((t.rows[m]?.map (·.output)).getD false), m, inputs⟩
  | .error f => .error f

/-- The map of a table: with four variables, two of them number the rows; else one does. -/
def ofTable (t : TruthTable) : Except Fault KarnaughMap :=
  if t.width < Fault.mapSizes.1 || Fault.mapSizes.2 < t.width then .error .unmappable
  else
    let split := if t.width = 4 then 2 else 1
    let rowVariables := t.names.take split
    let columnVariables := t.names.drop split
    let rowHeaders := headers rowVariables.length
    let columnHeaders := headers columnVariables.length
    match rowHeaders.mapM fun r =>
        columnHeaders.mapM fun c => cellAt t rowVariables columnVariables r c with
    | .ok cells =>
      .ok ⟨t.names, rowVariables, columnVariables, rowHeaders, columnHeaders, cells⟩
    | .error f => .error f

def rowCount (m : KarnaughMap) : Nat := m.rowHeaders.length

def columnCount (m : KarnaughMap) : Nat := m.columnHeaders.length

def grid (m : KarnaughMap) : List (List Bool) := m.cells.map (·.map (·.value))

def cell? (m : KarnaughMap) (place : Nat × Nat) : Option MapCell :=
  (m.cells[place.1]?).bind (·[place.2]?)

def holdsOne (m : KarnaughMap) (place : Nat × Nat) : Bool :=
  ((m.cell? place).map (·.value)).getD false

def places (m : KarnaughMap) : List (Nat × Nat) :=
  (List.range m.rowCount).flatMap fun r => (List.range m.columnCount).map fun c => (r, c)

end KarnaughMap

end Switching
