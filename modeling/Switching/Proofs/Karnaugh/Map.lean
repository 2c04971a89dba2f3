import Switching.Proofs.Karnaugh.Gray
import Switching.Proofs.Karnaugh.Span
import Switching.Proofs.TruthTable

/-! The map of a truth table. Every field shows the row of the table with the number that the codes
of its place spell, and the assignment that belongs to that number. -/
namespace Switching

theorem forall₂_of_mapM {α β ε : Type} {f : α → Except ε β} {as : List α} {bs : List β}
    (h : as.mapM f = .ok bs) : List.Forall₂ (fun a b => f a = .ok b) as bs := by
  induction as generalizing bs with
  | nil =>
    cases h
    exact .nil
  | cons a as ih =>
    rw [List.mapM_cons] at h
    cases head : f a with
    | error e =>
      rw [head] at h
      cases h
    | ok b =>
      cases tail : as.mapM f with
      | error e =>
        rw [head, tail] at h
        cases h
      | ok bs =>
        rw [head, tail] at h
        cases h
        exact .cons head (ih tail)

namespace TruthTable

variable {t : TruthTable} {f : Formula} {names? : Option (List String)}
  {expression? : Option String}

def Numbered (t : TruthTable) : Prop := t.rows.map (·.minterm) = List.range (2 ^ t.width)

theorem numbered_of_ofFormula (made : ofFormula f names? expression? = .ok t) : t.Numbered := by
  rw [ofFormula] at made
  split at made
  · cases made
  · split at made
    · rename_i rows found
      cases made
      have each := forall₂_of_mapM found
      have same : List.Forall₂ (fun row i => row.minterm = i) rows
          (List.range (2 ^ (names?.getD f.names).length)) := by
        refine each.flip.imp fun row i answer => ?_
        rw [Row.ofFormula] at answer
        split at answer <;> cases answer
        rfl
      have equal := List.forall₂_map_left_iff.mpr same
      rwa [List.forall₂_eq_eq_eq] at equal
    · cases made

theorem Numbered.row (numbered : t.Numbered) {i : Nat} {row : Row} (found : t.rows[i]? = some row) :
    row.minterm = i ∧ i < 2 ^ t.width := by
  have listed : (t.rows.map (·.minterm))[i]? = some row.minterm := by simp [found]
  rw [numbered, List.getElem?_eq_some_iff] at listed
  obtain ⟨within, same⟩ := listed
  rw [List.getElem_range] at same
  exact ⟨same.symm, by simpa using within⟩

theorem mem_minterms (numbered : t.Numbered) {k : Nat} :
    k ∈ t.minterms ↔ (t.rows[k]?.map (·.output)).getD false = true := by
  constructor
  · intro member
    obtain ⟨row, kept, rfl⟩ := List.mem_map.mp member
    obtain ⟨listed, one⟩ := List.mem_filter.mp kept
    obtain ⟨i, found⟩ := List.mem_iff_getElem?.mp listed
    rw [(numbered.row found).1, found]
    exact one
  · intro one
    cases found : t.rows[k]? with
    | none => simp [found] at one
    | some row =>
      have kept : row ∈ t.rows.filter (·.output) :=
        List.mem_filter.mpr ⟨List.mem_of_getElem? found, by simpa [found] using one⟩
      exact List.mem_map.mpr ⟨row, kept, (numbered.row found).1⟩

theorem lt_of_mem_minterms (numbered : t.Numbered) : ∀ k ∈ t.minterms, k < 2 ^ t.width := by
  intro k member
  obtain ⟨row, kept, rfl⟩ := List.mem_map.mp member
  obtain ⟨i, found⟩ := List.mem_iff_getElem?.mp (List.mem_of_mem_filter kept)
  obtain ⟨same, within⟩ := numbered.row found
  exact same ▸ within

end TruthTable

namespace Assignment

variable {a : Assignment} {names : List String} {v : String → Bool}

theorem numberFrom_eq (values : ∀ x ∈ names, a.value? x = some (v x)) (n : Nat) :
    a.numberFrom n names = .ok (2 ^ names.length * n + numberOf (names.map v)) := by
  induction names generalizing n with
  | nil => simp [numberFrom, numberOf]
  | cons name names ih =>
    have first : a.value name = .ok (v name) := by
      rw [value, values name (List.mem_cons_self ..)]
    rw [numberFrom, first]
    simp only
    rw [ih fun x hx => values x (List.mem_cons_of_mem _ hx)]
    simp only [List.map_cons, numberOf, List.length_map, List.length_cons, Nat.pow_succ]
    rw [Nat.mul_add, ← Nat.mul_assoc, Nat.add_assoc]

theorem ofList_zip (nodup : names.Nodup) {bs : List Bool} (length : bs.length = names.length) :
    names.map (ofList (names.zip bs)).value? = bs.map some ∧
      (ofList (names.zip bs)).number names = .ok (numberOf bs) := by
  obtain ⟨v, rfl⟩ := exists_values nodup bs length
  have entries : names.zip (names.map v) = names.map fun x => (x, v x) := by
    rw [← List.map_prod_left_eq_zip]
  have values : ∀ x ∈ names, (ofList (names.zip (names.map v))).value? x = some (v x) := by
    intro x hx
    rw [entries, ofList, value?_foldl, if_pos hx]
  constructor
  · rw [List.map_map]
    exact List.map_congr_left values
  · rw [number, numberFrom_eq values, Nat.mul_zero, Nat.zero_add]

end Assignment

theorem length_axisDigits {width position : Nat} (within : position < 2 ^ width) :
    (axisDigits width position).length = width := by
  rw [axisDigits, grayCode_eq_lastDigits within, length_lastDigits]

namespace KarnaughMap

def placeDigits (a b : Nat) (place : Nat × Nat) : List Bool :=
  axisDigits a place.1 ++ axisDigits b place.2

/-- The map has so many digits for its rows and its columns, and at every place it shows whether the
number spelled by the digits is in the set, and the digits as values of the names. -/
structure Shows (m : KarnaughMap) (a b : Nat) (onSet : List Nat) : Prop where
  rows : m.rowCount = 2 ^ a
  columns : m.columnCount = 2 ^ b
  cell : ∀ x ∈ m.places, ∃ c, m.cell? x = some c ∧ c.minterm = numberOf (placeDigits a b x) ∧
    (c.value = true ↔ c.minterm ∈ onSet) ∧
    m.names.map c.inputs.value? = (placeDigits a b x).map some

theorem places_eq (m : KarnaughMap) :
    m.places = List.range m.rowCount ×ˢ List.range m.columnCount := rfl

theorem mem_places {m : KarnaughMap} {x : Nat × Nat} :
    x ∈ m.places ↔ x.1 < m.rowCount ∧ x.2 < m.columnCount := by
  rw [places_eq, ← List.mem_range, ← List.mem_range]
  exact List.mem_product

theorem length_placeDigits {a b : Nat} {place : Nat × Nat} (row : place.1 < 2 ^ a)
    (column : place.2 < 2 ^ b) : (placeDigits a b place).length = a + b := by
  rw [placeDigits, List.length_append, length_axisDigits row, length_axisDigits column]

theorem Shows.length_digits {m : KarnaughMap} {a b : Nat} {onSet : List Nat} {x : Nat × Nat}
    (shows : m.Shows a b onSet) (hx : x ∈ m.places) : (placeDigits a b x).length = a + b := by
  rw [mem_places, shows.rows, shows.columns] at hx
  exact length_placeDigits hx.1 hx.2

theorem headers_eq (width : Nat) :
    headers width = (List.range (2 ^ width)).map (axisDigits width) := rfl

theorem length_headers (width : Nat) : (headers width).length = 2 ^ width := by
  rw [headers_eq, List.length_map, List.length_range]

def cellOf (t : TruthTable) (digits : List Bool) : MapCell where
  value := (t.rows[numberOf digits]?.map (·.output)).getD false
  minterm := numberOf digits
  inputs := .ofList (t.names.zip digits)

theorem cellAt_eq {t : TruthTable} {rowVariables columnVariables : List String}
    {rowCode columnCode : List Bool} (split : t.names = rowVariables ++ columnVariables)
    (nodup : t.names.Nodup) (row : rowCode.length = rowVariables.length)
    (column : columnCode.length = columnVariables.length) :
    cellAt t rowVariables columnVariables rowCode columnCode =
      .ok (cellOf t (rowCode ++ columnCode)) := by
  have length : (rowCode ++ columnCode).length = t.names.length := by
    rw [split, List.length_append, List.length_append, row, column]
  have entries : rowVariables.zip rowCode ++ columnVariables.zip columnCode =
      t.names.zip (rowCode ++ columnCode) := by
    rw [split, List.zip_append row.symm]
  simp only [cellAt, entries, (Assignment.ofList_zip nodup length).2]
  rfl

def rowDigits (width : Nat) : Nat := if width = 4 then 2 else 1

def mapOf (t : TruthTable) (split : Nat) : KarnaughMap where
  names := t.names
  rowVariables := t.names.take split
  columnVariables := t.names.drop split
  rowHeaders := headers (t.names.take split).length
  columnHeaders := headers (t.names.drop split).length
  cells := (headers (t.names.take split).length).map fun r =>
    (headers (t.names.drop split).length).map fun c => cellOf t (r ++ c)

theorem length_of_mem_headers {width : Nat} {code : List Bool} (h : code ∈ headers width) :
    code.length = width := by
  rw [headers_eq] at h
  obtain ⟨p, hp, rfl⟩ := List.mem_map.mp h
  exact length_axisDigits (List.mem_range.mp hp)

theorem ofTable_eq {t : TruthTable} (nodup : t.names.Nodup) (few : 2 ≤ t.width ∧ t.width ≤ 4) :
    ofTable t = .ok (mapOf t (rowDigits t.width)) := by
  have mappable : (t.width < Fault.mapSizes.1 || Fault.mapSizes.2 < t.width) = false :=
    Bool.or_eq_false_iff.mpr
      ⟨decide_eq_false (Nat.not_lt.mpr few.1), decide_eq_false (Nat.not_lt.mpr few.2)⟩
  have split : ∀ n, t.names = t.names.take n ++ t.names.drop n :=
    fun n => (List.take_append_drop n t.names).symm
  have cells : ∀ n, ((headers (t.names.take n).length).mapM fun r =>
      (headers (t.names.drop n).length).mapM fun c =>
        cellAt t (t.names.take n) (t.names.drop n) r c) = .ok (mapOf t n).cells :=
    fun n => mapM_eq_ok fun r hr => mapM_eq_ok fun c hc =>
      cellAt_eq (split n) nodup (length_of_mem_headers hr) (length_of_mem_headers hc)
  rw [ofTable, mappable, if_neg Bool.false_ne_true]
  simp only [cells, rowDigits]
  rfl

section Fields

variable {t : TruthTable} {split : Nat}

theorem length_take (within : split ≤ t.width) : (t.names.take split).length = split := by
  rw [List.length_take]
  exact Nat.min_eq_left within

theorem length_drop (t : TruthTable) (split : Nat) :
    (t.names.drop split).length = t.width - split := List.length_drop

theorem rowCount_mapOf (within : split ≤ t.width) : (mapOf t split).rowCount = 2 ^ split := by
  have count : (mapOf t split).rowCount = 2 ^ (t.names.take split).length := length_headers _
  rw [count, length_take within]

theorem columnCount_mapOf (t : TruthTable) (split : Nat) :
    (mapOf t split).columnCount = 2 ^ (t.width - split) := by
  have count : (mapOf t split).columnCount = 2 ^ (t.names.drop split).length := length_headers _
  rw [count, length_drop]

theorem cell?_mapOf (within : split ≤ t.width) {place : Nat × Nat} (row : place.1 < 2 ^ split)
    (column : place.2 < 2 ^ (t.width - split)) :
    (mapOf t split).cell? place = some (cellOf t (placeDigits split (t.width - split) place)) := by
  simp only [cell?, mapOf, length_take within, length_drop, headers_eq, List.getElem?_map,
    List.getElem?_range row, Option.map_some, Option.bind_some, List.getElem?_range column]
  rfl

theorem mapOf_shows (numbered : t.Numbered) (nodup : t.names.Nodup) (within : split ≤ t.width) :
    (mapOf t split).Shows split (t.width - split) t.minterms where
  rows := rowCount_mapOf within
  columns := columnCount_mapOf t split
  cell := by
    intro x listed
    rw [mem_places, rowCount_mapOf within, columnCount_mapOf] at listed
    obtain ⟨row, column⟩ := listed
    refine ⟨_, cell?_mapOf within row column, rfl, (TruthTable.mem_minterms numbered).symm, ?_⟩
    have length : (placeDigits split (t.width - split) x).length = t.names.length := by
      rw [length_placeDigits row column]
      exact Nat.add_sub_of_le within
    exact (Assignment.ofList_zip nodup length).1

end Fields

end KarnaughMap

end Switching
