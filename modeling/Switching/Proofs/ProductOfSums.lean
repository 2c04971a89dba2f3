import Switching.Proofs.Grammar.Writing
import Switching.Proofs.Lookup
import Switching.TruthTable.Canonical

/-! The canonical product of sums read back. Each sum is false in its own row only: for the values
of any other row some literal of it is true. So the product is false in the rows whose sums it is
made of, and the function of the table is false there and nowhere else. -/
namespace Switching

namespace Formula

theorem value_shape (f : Formula) (v : String → Bool) : f.shape.value v = f.value v := by
  induction f with
  | var x i => rfl
  | const b i => rfl
  | not f i ih => rw [shape, value, value, ih]
  | gate k l r i left right => rw [shape, value, value, left, right]

def literal (x : String) (positive : Bool) : Formula :=
  if positive then var x 0 else not (var x 0) 0

theorem value_literal (x : String) (b : Bool) (v : String → Bool) :
    (literal x b).value v = (v x == b) := by
  cases b <;> simp [literal, value]

theorem mem_names_literal {x y : String} {b : Bool} : y ∈ (literal x b).names ↔ y = x := by
  cases b <;> simp [literal]

end Formula

open Formula

theorem Writes.literal {x : String} (identifier : IsIdentifier x) (b : Bool) (n : Nat) :
    Writes .operand (TruthTable.literalText x b) (Formula.literal x b) n := by
  cases b with
  | false => exact primed identifier n
  | true => exact name identifier n

namespace TruthTable

open Assignment

variable {f g : Formula} {names : List String} {t : TruthTable} {row : Row} {rows : List Row}

def maxtermFormula (names : List String) (row : Row) : Formula :=
  Implicant.joined .or false (names.map fun x => literal x !(row.bit x))

def maxtermProduct (names : List String) (rows : List Row) : Formula :=
  Implicant.joined .and true (rows.map (maxtermFormula names))

theorem value_maxtermFormula (names : List String) (row : Row) (v : String → Bool) :
    (maxtermFormula names row).value v = true ↔ ∃ x ∈ names, v x ≠ row.bit x := by
  rw [maxtermFormula, Implicant.value_joined_or, List.any_map, List.any_eq_true]
  simp only [Function.comp_apply, value_literal, beq_iff_eq, Bool.eq_not]

theorem value_maxtermProduct (names : List String) (rows : List Row) (v : String → Bool) :
    (maxtermProduct names rows).value v = true ↔ ∀ row ∈ rows, ∃ x ∈ names, v x ≠ row.bit x := by
  rw [maxtermProduct, Implicant.value_joined_and, List.all_map, List.all_eq_true]
  simp only [Function.comp_apply, value_maxtermFormula]

theorem names_maxtermProduct_subset (names : List String) (rows : List Row) :
    (maxtermProduct names rows).names ⊆ names := by
  intro y hy
  obtain ⟨_, sum, inSum⟩ := Implicant.mem_names_joined hy
  obtain ⟨row, _, rfl⟩ := List.mem_map.mp sum
  obtain ⟨_, part, inPart⟩ := Implicant.mem_names_joined inSum
  obtain ⟨x, hx, rfl⟩ := List.mem_map.mp part
  rw [mem_names_literal] at inPart
  exact inPart ▸ hx

theorem writes_maxterm (some : names ≠ []) (identifiers : ∀ x ∈ names, IsIdentifier x)
    (row : Row) : Writes .operand (maxtermText names row) (maxtermFormula names row) 1 := by
  obtain ⟨x, xs, rfl⟩ := List.exists_cons_of_ne_nil some
  let piece := fun y => (literalText y !(row.bit y), literal y !(row.bit y))
  have first : Writes .operand (piece x).1 (piece x).2 0 :=
    Writes.literal (identifiers x (List.mem_cons_self ..)) _ 0
  have each : ∀ p ∈ xs.map piece, Writes .operand p.1 p.2 0 := by
    intro p hp
    obtain ⟨y, hy, rfl⟩ := List.mem_map.mp hp
    exact Writes.literal (identifiers y (List.mem_cons_of_mem _ hy)) _ 0
  have whole := ((first.chain .sum).sum each).enclosed
  rw [List.map_map, List.map_map] at whole
  exact whole

theorem endsKeyword_maxtermText (names : List String) (row : Row) (back : List Char) :
    endsKeyword ((maxtermText names row).toList ++ back) = true := by
  rw [maxtermText, String.append_assoc, String.toList_append]
  rfl

theorem writes_maxtermProduct (some : names ≠ []) (identifiers : ∀ x ∈ names, IsIdentifier x)
    (any : rows ≠ []) :
    Writes (.chain .product) (String.join (rows.map (maxtermText names)))
      (maxtermProduct names rows) 1 := by
  obtain ⟨row, rows, rfl⟩ := List.exists_cons_of_ne_nil any
  let piece := fun r => (maxtermText names r, maxtermFormula names r)
  have first := (writes_maxterm some identifiers row).chain .product
  have each : ∀ p ∈ rows.map piece, Writes .operand p.1 p.2 1 := by
    intro p hp
    obtain ⟨r, _, rfl⟩ := List.mem_map.mp hp
    exact writes_maxterm some identifiers r
  have apart : ∀ p ∈ rows.map piece, ∀ back, endsKeyword (p.1.toList ++ back) = true := by
    intro p hp back
    obtain ⟨r, _, rfl⟩ := List.mem_map.mp hp
    exact endsKeyword_maxtermText names r back
  have whole := first.product each apart
  rw [List.map_map, List.map_map] at whole
  exact whole

theorem outputs_of_constant {b : Bool} (constant : t.constant? = some b) :
    ∀ row ∈ t.rows, row.output = b := by
  unfold constant? ones at constant
  split at constant
  · rename_i none
    cases constant
    intro row hrow
    exact Bool.eq_false_iff.mpr (List.countP_eq_zero.mp none row hrow)
  · split at constant
    · rename_i whole
      cases constant
      exact List.countP_eq_length.mp whole
    · cases constant

theorem of_not_constant {expression : String}
    (varies : (tableOf f names expression).constant? = none) :
    names ≠ [] ∧ (tableOf f names expression).rows.filter (!·.output) ≠ [] := by
  unfold constant? ones at varies
  have low : (tableOf f names expression).rows.countP (·.output) ≠ 0 := by
    intro zero
    rw [if_pos zero] at varies
    cases varies
  have high : (tableOf f names expression).rows.countP (·.output) ≠
      (tableOf f names expression).rows.length := by
    intro whole
    rw [if_neg low, if_pos whole] at varies
    cases varies
  constructor
  · rintro rfl
    have bound : (tableOf f [] expression).rows.countP (·.output) ≤
      (tableOf f [] expression).rows.length := List.countP_le_length
    have one : (tableOf f [] expression).rows.length = 1 := rfl
    omega
  · intro none
    apply high
    rw [List.countP_eq_length]
    intro row hrow
    simpa using List.filter_eq_nil_iff.mp none row hrow

theorem value_productOfSums (sub : f.names ⊆ names) (expression : String) {m : Nat}
    (hm : m < 2 ^ names.length) :
    (maxtermProduct names ((tableOf f names expression).rows.filter (!·.output))).value
      (valuation names m) = f.value (valuation names m) := by
  rw [Bool.eq_iff_iff, value_maxtermProduct]
  constructor
  · intro differ
    by_contra zero
    -- the row of these inputs is among those rows
    have own : rowOf f names m ∈ (tableOf f names expression).rows.filter (!·.output) := by
      apply List.mem_filter.mpr
      refine ⟨List.mem_map_of_mem (List.mem_range.mpr hm), ?_⟩
      simpa [rowOf] using zero
    obtain ⟨x, _, other⟩ := differ _ own
    exact other rfl
  · intro one row hrow
    obtain ⟨made, zero⟩ := List.mem_filter.mp hrow
    obtain ⟨i, _, rfl⟩ := List.mem_map.mp made
    have low : f.value (valuation names i) = false := by simpa [rowOf] using zero
    by_contra agree
    push Not at agree
    have same : f.value (valuation names m) = f.value (valuation names i) :=
      value_congr fun x hx => agree x (sub hx)
    rw [one, low] at same
    cases same

theorem evaluateAll_eq (nodup : names.Nodup) (sub : g.names ⊆ names)
    (same : ∀ m < 2 ^ names.length, g.value (valuation names m) = f.value (valuation names m))
    (expression : String) : g.evaluateAll names = .ok (tableOf f names expression).outputs := by
  have value : ∀ m ∈ List.range (2 ^ names.length),
      g.evaluate (ofNumber m names) = .ok (f.value (valuation names m)) := by
    intro m hm
    have bound := List.mem_range.mp hm
    rw [← same m bound]
    exact evaluate_eq fun x hx => value?_ofNumber nodup bound (sub hx)
  rw [evaluateAll, Assignment.all, List.mapM_map, outputs, tableOf, List.map_map]
  exact mapM_eq_ok value

theorem exists_writes_productOfSums (sub : f.names ⊆ names)
    (identifiers : ∀ x ∈ names, IsIdentifier x) (expression : String) :
    ∃ g, Writes (.chain .sum) (tableOf f names expression).productOfSums g 1 ∧ g.names ⊆ names ∧
      ∀ m < 2 ^ names.length, g.value (valuation names m) = f.value (valuation names m) := by
  unfold productOfSums
  cases constant : (tableOf f names expression).constant? with
  | some b =>
    refine ⟨.const b 0, (Writes.bit b 1).chain .sum, ?_, fun m hm => ?_⟩
    · exact fun x hx => absurd hx not_mem_names_const
    · have row : rowOf f names m ∈ (tableOf f names expression).rows :=
        List.mem_map_of_mem (List.mem_range.mpr hm)
      exact (outputs_of_constant constant _ row).symm
  | none =>
    obtain ⟨some, any⟩ := of_not_constant constant
    refine ⟨_, ?_, names_maxtermProduct_subset names _,
      fun m hm => value_productOfSums sub expression hm⟩
    apply (writes_maxtermProduct some identifiers any).mono
    exact fun _ derived => .first (.first derived)

/-- The canonical product of sums of a table over distinct identifiers is accepted, and its formula
has no names but those of the table and the outputs of the table. -/
theorem ofText_productOfSums {names? : Option (List String)} {expression? : Option String}
    (made : ofFormula f names? expression? = .ok t) (nodup : t.names.Nodup)
    (identifiers : ∀ x ∈ t.names, IsIdentifier x) :
    ∃ p, Formula.ofText t.productOfSums = .ok p ∧ p.names ⊆ t.names ∧
      p.formula.evaluateAll t.names = .ok t.outputs := by
  have given : ofFormula f (some (names?.getD f.names)) expression? = .ok t := made
  obtain ⟨same, sub⟩ := of_ofFormula given
  subst same
  obtain ⟨g, writes, within, values⟩ := exists_writes_productOfSums sub identifiers
    (expression?.getD f.infixText)
  obtain ⟨p, accepted, rfl, met⟩ := writes.ofText (by decide)
  have inside : p.formula.names ⊆ names?.getD f.names :=
    fun x hx => within (mem_names_shape.mpr hx)
  refine ⟨p, accepted, met ▸ inside, evaluateAll_eq nodup inside (fun m hm => ?_) _⟩
  exact (value_shape _ _).symm.trans (values m hm)

theorem ofText_productOfSums_exclusive :
    ∃ t p, ofFormula (.gate .xor (.var "A" 1) (.var "B_1" 2) 3) (some ["B_1", "A"]) = .ok t ∧
      t.productOfSums = "(B_1 + A)(B_1' + A')" ∧ Formula.ofText t.productOfSums = .ok p ∧
      p.names ⊆ t.names ∧ p.formula.evaluateAll t.names = .ok t.outputs := by
  let f : Formula := .gate .xor (.var "A" 1) (.var "B_1" 2) 3
  have made : ofFormula f (some ["B_1", "A"]) = .ok (tableOf f ["B_1", "A"] f.infixText) := by
    decide +kernel
  obtain ⟨p, accepted, sub, values⟩ := ofText_productOfSums made (by decide) (by decide)
  exact ⟨_, p, made, by decide +kernel, accepted, sub, values⟩

end TruthTable

end Switching
