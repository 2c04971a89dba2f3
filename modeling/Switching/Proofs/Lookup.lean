import Switching.Proofs.Entries
import Switching.Proofs.Karnaugh.Map
import Switching.Proofs.Leaves

/-! Truth tables as look-ups. The table of a formula is made unless there are too many names or a
leaf has a name of its own, and the row with the number of an assignment shows that assignment and
the value under it, whatever the order of the columns. -/
namespace Switching

namespace Assignment

variable {a : Assignment} {names : List String} {x : String}

def Defines (a : Assignment) (names : List String) : Prop := ∀ x ∈ names, (a.value? x).isSome

instance (a : Assignment) (names : List String) : Decidable (a.Defines names) :=
  inferInstanceAs (Decidable (∀ x ∈ names, (a.value? x).isSome))

theorem Defines.value?_eq (h : a.Defines names) :
    ∀ x ∈ names, a.value? x = some ((a.value? x).getD false) := by
  intro x hx
  obtain ⟨b, found⟩ := Option.isSome_iff_exists.mp (h x hx)
  rw [found, Option.getD_some]

theorem map_fst_numberEntries (n : Int) (names : List String) :
    (numberEntries n names).map Prod.fst = names := by
  induction names with
  | nil => rfl
  | cons name names ih => rw [numberEntries, List.map_cons, ih]

theorem value?_ofNumber_eq_none_iff (n : Int) (names : List String) (x : String) :
    (ofNumber n names).value? x = none ↔ x ∉ names := by
  rw [ofNumber, value?_ofList_eq_none_iff, map_fst_numberEntries]

theorem number_eq (h : a.Defines names) :
    a.number names = .ok (numberOf (names.map fun x => (a.value? x).getD false)) := by
  rw [number, numberFrom_eq h.value?_eq, Nat.mul_zero, Nat.zero_add]

end Assignment

namespace TruthTable

open Assignment

variable {f : Formula} {names : List String} {expression? : Option String} {t : TruthTable}
  {a : Assignment}

theorem ofFormula_row_eq (f : Formula) (names : List String) (i : Nat) :
    Row.ofFormula f names i =
      match f.leaves.find? (· ∉ names) with
      | some x => .error (.undefinedVariable x)
      | none => .ok (rowOf f names i) := by
  have missing : f.unbound? (ofNumber i names) = f.leaves.find? (· ∉ names) := by
    apply congrArg (f.leaves.find? ·)
    funext x
    rw [Bool.eq_iff_iff, Option.isNone_iff_eq_none, value?_ofNumber_eq_none_iff, decide_eq_true_iff]
  rw [Row.ofFormula, Formula.evaluate_eq_leftmost, missing]
  cases f.leaves.find? (· ∉ names) <;> rfl

theorem ofFormula_eq (f : Formula) (names : List String) (expression? : Option String) :
    ofFormula f (some names) expression? =
      if 8 < names.length then .error (.tooManyVariables .table names.length)
      else
        match f.leaves.find? (· ∉ names) with
        | some x => .error (.undefinedVariable x)
        | none => .ok (tableOf f names (expression?.getD f.infixText)) := by
  rw [ofFormula, Option.getD_some]
  refine if_congr Iff.rfl rfl ?_
  cases found : f.leaves.find? (· ∉ names) with
  | some x =>
    -- the first row is there for any number of names, and it fails
    obtain ⟨count, some⟩ := Nat.exists_eq_succ_of_ne_zero
      (Nat.ne_of_gt (Nat.two_pow_pos names.length) : powerOfTwo names.length ≠ 0)
    rw [some, List.range_succ_eq_map, List.mapM_cons, ofFormula_row_eq, found]
    rfl
  | none =>
    have rows : (List.range (powerOfTwo names.length)).mapM (Row.ofFormula f names) =
        .ok ((List.range (2 ^ names.length)).map (rowOf f names)) :=
      mapM_eq_ok fun i _ => by rw [ofFormula_row_eq, found]
    rw [rows]
    rfl

theorem of_ofFormula (made : ofFormula f (some names) expression? = .ok t) :
    t = tableOf f names (expression?.getD f.infixText) ∧ f.names ⊆ names := by
  rw [ofFormula_eq] at made
  split at made
  · cases made
  · split at made
    · cases made
    · rename_i none
      cases made
      refine ⟨rfl, fun x hx => ?_⟩
      simpa using List.find?_eq_none.mp none x (Formula.mem_leaves.mpr hx)

end TruthTable

/-- The row shows the assignment, cut down to the names, and the value of the formula under it. -/
structure Row.Answers (row : Row) (f : Formula) (names : List String) (a : Assignment) : Prop where
  minterm : a.number names = .ok row.minterm
  maxterm : a.mirrorNumber names = .ok row.maxterm
  inputs : ∀ x, row.inputs.value? x = if x ∈ names then a.value? x else none
  output : f.evaluate a = .ok row.output

namespace TruthTable

open Assignment

variable {f : Formula} {names : List String} {expression? : Option String} {t : TruthTable}
  {a : Assignment}

theorem rowOf_answers (sub : f.names ⊆ names) (defined : a.Defines names) :
    (rowOf f names (numberOf (names.map fun x => (a.value? x).getD false))).Answers f names a where
  minterm := number_eq defined
  maxterm := by
    rw [mirrorNumber, number_eq defined]
    rfl
  inputs x := by
    by_cases hx : x ∈ names
    · rw [rowOf, value?_ofNumber_numberOf hx, if_pos hx, defined.value?_eq x hx, Option.getD_some]
    · rw [rowOf, (value?_ofNumber_eq_none_iff _ _ _).mpr hx, if_neg hx]
  output := by
    let v := fun x => (a.value? x).getD false
    have same : f.value (valuation names (numberOf (names.map v))) = f.value v :=
      Formula.value_congr fun x hx => valuation_numberOf (sub hx)
    rw [rowOf, same]
    exact Formula.evaluate_eq fun x hx => defined.value?_eq x (sub hx)

theorem exists_row (made : ofFormula f (some names) expression? = .ok t)
    (defined : a.Defines names) :
    ∃ i row, a.number names = .ok i ∧ t.rows[i]? = some row ∧ row.Answers f names a := by
  obtain ⟨rfl, sub⟩ := of_ofFormula made
  let digits := names.map fun x => (a.value? x).getD false
  have bound : numberOf digits < 2 ^ names.length := by simpa [digits] using numberOf_lt digits
  refine ⟨numberOf digits, _, number_eq defined, ?_, rowOf_answers sub defined⟩
  rw [tableOf, List.getElem?_map, List.getElem?_range bound, Option.map_some]

/-- A table is refused for its number of names, or for the leftmost leaf with a name that it lacks,
and else it is made. The row with the number of an assignment then shows this assignment and the
value under it, so no other order or choice of the names gives another output. No name has to stand
only once. -/
theorem ofFormula_lookup (f : Formula) (names : List String) (expression? : Option String) :
    (8 < names.length →
      ofFormula f (some names) expression? = .error (.tooManyVariables .table names.length)) ∧
    (names.length ≤ 8 →
      (∀ x, f.leaves.find? (· ∉ names) = some x →
        ofFormula f (some names) expression? = .error (.undefinedVariable x)) ∧
      (f.leaves.find? (· ∉ names) = none → ∃ t, ofFormula f (some names) expression? = .ok t)) ∧
    ∀ t, ofFormula f (some names) expression? = .ok t → ∀ a : Assignment, a.Defines names →
      ∃ i row, a.number names = .ok i ∧ t.rows[i]? = some row ∧ row.Answers f names a ∧
        ∀ names' expression?' t', ofFormula f (some names') expression?' = .ok t' →
          a.Defines names' →
            ∃ i' row', a.number names' = .ok i' ∧ t'.rows[i']? = some row' ∧
              row'.output = row.output := by
  refine ⟨fun many => ?_, fun few => ⟨fun x lacking => ?_, fun complete => ?_⟩, ?_⟩
  · rw [ofFormula_eq, if_pos many]
  · rw [ofFormula_eq, if_neg (Nat.not_lt.mpr few), lacking]
  · exact ⟨_, by rw [ofFormula_eq, if_neg (Nat.not_lt.mpr few), complete]⟩
  · intro t made a defined
    obtain ⟨i, row, number, found, answers⟩ := exists_row made defined
    refine ⟨i, row, number, found, answers, fun names' expression?' t' made' defined' => ?_⟩
    obtain ⟨i', row', number', found', answers'⟩ := exists_row made' defined'
    have same := answers'.output.symm.trans answers.output
    exact ⟨i', row', number', found', Except.ok.inj same⟩

theorem ofFormula_lookup_multiplexer :
    let f : Formula :=
      .gate .or (.gate .and (.var "A" 1) (.not (.var "S" 2) 3) 4)
        (.gate .and (.var "B" 5) (.var "S" 6) 7) 8
    let a : Assignment := .ofList [("S", true), ("A", false), ("B", true), ("D", false)]
    ∃ t t' row row', ofFormula f (some ["S", "A", "B"]) = .ok t ∧
      ofFormula f (some ["B", "D", "A", "S"]) = .ok t' ∧ t.rows[5]? = some row ∧
      t'.rows[9]? = some row' ∧ row.Answers f ["S", "A", "B"] a ∧ row.output = true ∧
      row'.output = true := by
  intro f a
  obtain ⟨t, made⟩ := ((ofFormula_lookup f ["S", "A", "B"] none).2.1 (by decide)).2 (by decide)
  obtain ⟨t', made'⟩ :=
    ((ofFormula_lookup f ["B", "D", "A", "S"] none).2.1 (by decide)).2 (by decide)
  obtain ⟨i, row, number, found, answers, others⟩ :=
    (ofFormula_lookup f ["S", "A", "B"] none).2.2 t made a (by decide)
  obtain ⟨i', row', number', found', same⟩ :=
    others ["B", "D", "A", "S"] none t' made' (by decide)
  have index : a.number ["S", "A", "B"] = .ok 5 := by decide
  have index' : a.number ["B", "D", "A", "S"] = .ok 9 := by decide
  have value : f.evaluate a = .ok true := by decide +kernel
  cases number.symm.trans index
  cases number'.symm.trans index'
  have output : row.output = true := (Except.ok.inj (answers.output.symm.trans value))
  exact ⟨t, t', row, row', made, made', found, found', answers, output, same.trans output⟩

end TruthTable

end Switching
