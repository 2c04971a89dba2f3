import Switching.Proofs.Cube
import Switching.Proofs.Valuation
import Switching.Proofs.Value

/-! Products and sums of products as formulas: they have the values that the patterns give, and no
names but those of the inputs. -/
namespace Switching

namespace Pattern

variable {p : Pattern} {names : List String}

@[simp]
theorem literalsOver_zero (x : String) (names : List String) (p : Pattern) :
    literalsOver (.zero :: p) (x :: names) = (x, false) :: p.literalsOver names := rfl

@[simp]
theorem literalsOver_one (x : String) (names : List String) (p : Pattern) :
    literalsOver (.one :: p) (x :: names) = (x, true) :: p.literalsOver names := rfl

@[simp]
theorem literalsOver_dash (x : String) (names : List String) (p : Pattern) :
    literalsOver (.dash :: p) (x :: names) = p.literalsOver names := rfl

theorem length_literalsOver (length : p.length = names.length) :
    (p.literalsOver names).length = p.literals := by
  induction p generalizing names with
  | nil => simp [literalsOver, literals]
  | cons t ts ih =>
    cases names with
    | nil => cases length
    | cons name names =>
      have rest := ih (Nat.succ.inj length)
      cases t <;> simp_all [literals, Trit.isDash]

end Pattern

namespace Implicant

variable {names : List String} {v : String → Bool} {x : String} {fs : List Formula}

theorem value_foldl_gate (k : Gate) (f : Formula) (fs : List Formula) (v : String → Bool) :
    (fs.foldl (fun g h => .gate k g h 0) f).value v =
      fs.foldl (fun b h => k.apply b (h.value v)) (f.value v) := by
  induction fs generalizing f with
  | nil => rfl
  | cons g gs ih => exact ih _

theorem value_joined_and (fs : List Formula) (v : String → Bool) :
    (joined .and true fs).value v = fs.all (·.value v) := by
  cases fs with
  | nil => rfl
  | cons f fs =>
    rw [joined, value_foldl_gate, List.all_cons]
    generalize f.value v = b
    induction fs generalizing b with
    | nil => simp
    | cons g gs ih => rw [List.foldl_cons, ih, List.all_cons, ← Bool.and_assoc, Gate.apply]

theorem value_joined_or (fs : List Formula) (v : String → Bool) :
    (joined .or false fs).value v = fs.any (·.value v) := by
  cases fs with
  | nil => rfl
  | cons f fs =>
    rw [joined, value_foldl_gate, List.any_cons]
    generalize f.value v = b
    induction fs generalizing b with
    | nil => simp
    | cons g gs ih => rw [List.foldl_cons, ih, List.any_cons, ← Bool.or_assoc, Gate.apply]

theorem mem_names_joined {k : Gate} {b : Bool} (hx : x ∈ (joined k b fs).names) :
    ∃ f ∈ fs, x ∈ f.names := by
  cases fs with
  | nil => simp [joined] at hx
  | cons f fs =>
    rw [joined] at hx
    induction fs generalizing f with
    | nil => exact ⟨f, by simp, hx⟩
    | cons g gs ih =>
      obtain ⟨h, hh, member⟩ := ih _ hx
      rcases List.mem_cons.mp hh with rfl | hh
      · rcases Formula.mem_names_gate.mp member with member | member
        · exact ⟨f, by simp, member⟩
        · exact ⟨g, by simp, member⟩
      · exact ⟨h, by simp [hh], member⟩

theorem all_literals {p : Pattern} (length : p.length = names.length) (v : String → Bool) :
    (p.literalsOver names).all (fun l => v l.1 == l.2) = p.fits (names.map v) := by
  induction p generalizing names with
  | nil => simp [Pattern.literalsOver, Pattern.fits]
  | cons t ts ih =>
    cases names with
    | nil => cases length
    | cons name names =>
      have rest := ih (Nat.succ.inj length)
      rw [List.map_cons, Pattern.fits, ← rest]
      cases t <;> simp [Trit.admits]

theorem value_toFormula {i : Implicant} (length : i.pattern.length = names.length)
    (v : String → Bool) :
    (i.toFormula names).value v = i.covers (numberOf (names.map v)) := by
  have literal : ∀ l : String × Bool,
      (if l.2 then Formula.var l.1 0 else .not (.var l.1 0) 0).value v = (v l.1 == l.2) := by
    rintro ⟨name, b⟩
    cases b <;> simp [Formula.value]
  have same : i.pattern.length = (names.map v).length := by rw [List.length_map, length]
  rw [toFormula, value_joined_and, literalFormulas, List.all_map]
  simp only [Function.comp_def, literal]
  rw [all_literals length, covers, Pattern.covers_numberOf_eq same]

theorem names_toFormula_subset (i : Implicant) (names : List String) :
    (i.toFormula names).names ⊆ names := by
  intro x hx
  obtain ⟨f, hf, member⟩ := mem_names_joined hx
  obtain ⟨⟨name, b⟩, hl, rfl⟩ := List.mem_map.mp hf
  have leaf : x = name := by
    cases b with
    | false => simpa using member
    | true => simpa using member
  obtain ⟨⟨name', t⟩, hzip, found⟩ := List.mem_filterMap.mp hl
  have input := (List.of_mem_zip hzip).1
  cases t <;> simp at found <;> simp_all

/-- A product as a formula, evaluated under the assignment with some number, says whether its
pattern covers the number. -/
theorem evaluate_toFormula {i : Implicant} (nodup : names.Nodup)
    (length : i.pattern.length = names.length) {m : Nat} (hm : m < 2 ^ names.length) :
    (i.toFormula names).evaluate (.ofNumber m names) = .ok (i.covers m) := by
  obtain ⟨v, rfl⟩ := Assignment.exists_numberOf nodup hm
  have bound : ∀ x ∈ (i.toFormula names).names,
      (Assignment.ofNumber (numberOf (names.map v)) names).value? x = some (v x) :=
    fun x hx => Assignment.value?_ofNumber_numberOf (names_toFormula_subset i names hx)
  rw [Formula.evaluate_eq bound, value_toFormula length]

theorem evaluate_toFormula_gaps :
    let i : Implicant := { pattern := .ofText "-0-1", minterms := [] }
    let names := ["A", "B", "C", "D"]
    names.Nodup ∧ 9 < 2 ^ names.length ∧ 13 < 2 ^ names.length ∧
    i.toFormula names = .gate .and (.not (.var "B" 0) 0) (.var "D" 0) 0 ∧
    (i.toFormula names).evaluate (.ofNumber (9 : Nat) names) = .ok true ∧
    (i.toFormula names).evaluate (.ofNumber (13 : Nat) names) = .ok false := by
  intro i names
  have nodup : names.Nodup := by decide
  have nine : i.covers 9 = true := by decide
  have thirteen : i.covers 13 = false := by decide
  refine ⟨nodup, by decide, by decide, by decide, ?_, ?_⟩
  · rw [evaluate_toFormula nodup rfl (by decide), nine]
  · rw [evaluate_toFormula nodup rfl (by decide), thirteen]

theorem value_sumFormula {is : List Implicant}
    (length : ∀ i ∈ is, i.pattern.length = names.length) (v : String → Bool) :
    (sumFormula is names).value v = sumCovers is (numberOf (names.map v)) := by
  rw [sumFormula, value_joined_or, List.any_map, sumCovers, Bool.eq_iff_iff, List.any_eq_true,
    List.any_eq_true]
  constructor
  · rintro ⟨i, hi, value⟩
    exact ⟨i, hi, (value_toFormula (length i hi) v).symm.trans value⟩
  · rintro ⟨i, hi, covers⟩
    exact ⟨i, hi, (value_toFormula (length i hi) v).trans covers⟩

theorem names_sumFormula_subset (is : List Implicant) (names : List String) :
    (sumFormula is names).names ⊆ names := by
  intro x hx
  obtain ⟨f, hf, member⟩ := mem_names_joined hx
  obtain ⟨i, _, rfl⟩ := List.mem_map.mp hf
  exact names_toFormula_subset i names member

end Implicant

end Switching
