import Switching.Analysis
import Switching.Proofs.Grammar.Soundness
import Switching.Proofs.Products
import Switching.Proofs.Scan
import Switching.Proofs.TruthTable

/-! Simplification keeps the meaning of an expression. The formula that is rebuilt from a minimal
sum is true at the minterms of the set, these are the numbers of the rows where the given formula
is true, and every assignment of its variables is the assignment of some row. -/
namespace Switching

namespace Minimization

variable {names : List String} {onSet : List Nat} {r : Minimization} {v : String → Bool}

theorem lettered_sumText {is : List Implicant} (letters : ∀ x ∈ names, Lettered x) (any : is ≠ [])
    (proper : ∀ i ∈ is, i.pattern.literalsOver names ≠ []) :
    Lettered (Implicant.sumText is names) := by
  obtain ⟨i, is, rfl⟩ := List.exists_cons_of_ne_nil any
  obtain ⟨⟨name, b⟩, ls, literals⟩ :=
    List.exists_cons_of_ne_nil (proper i (List.mem_cons_self ..))
  have input : name ∈ names := by
    have member : (name, b) ∈ i.pattern.literalsOver names := by simp [literals]
    obtain ⟨⟨name', t⟩, hzip, found⟩ := List.mem_filterMap.mp member
    have known := (List.of_mem_zip hzip).1
    cases t <;> simp at found <;> simp_all
  obtain ⟨c, hc, letter⟩ := letters name input
  obtain ⟨cs, spelled⟩ := List.head?_eq_some_iff.mp hc
  have term : (i.term names).toList.head? = some c := by
    rw [Implicant.term, literals]
    cases b <;> simp [spelled]
  have text : Implicant.sumText (i :: is) names =
      " + ".intercalate ((i :: is).map (·.term names)) := rfl
  refine ⟨c, ?_, letter⟩
  rw [text]
  cases is with
  | nil => simpa using term
  | cons j js => simp [term]

theorem sumText_ne_one {is : List Implicant} (letters : ∀ x ∈ names, Lettered x)
    (proper : ∀ i ∈ is, i.pattern.literalsOver names ≠ []) :
    Implicant.sumText is names ≠ "1" := by
  intro same
  by_cases none : is = []
  · have zero : Implicant.sumText [] names = "0" := rfl
    rw [none, zero] at same
    exact absurd same (by decide)
  · have letter := lettered_sumText letters none proper
    rw [same] at letter
    exact absurd letter (by decide)

theorem literals_ne_nil {p : Pattern} (length : p.length = names.length) {m : Nat}
    (missed : p.covers m = false) : p.literalsOver names ≠ [] := by
  intro none
  have zero : p.literals = 0 := by rw [← Pattern.length_literalsOver length, none, List.length_nil]
  rw [Pattern.covers_of_literals_eq_zero zero] at missed
  cases missed

theorem literals_ne_nil_of_isPrime (proper : ∃ m < 2 ^ names.length, m ∉ onSet) {p : Pattern}
    (prime : p.IsPrime names.length onSet) : p.literalsOver names ≠ [] := by
  obtain ⟨m, hm, outside⟩ := proper
  apply literals_ne_nil prime.length
  apply Bool.eq_false_iff.mpr
  exact fun covers => outside (prime.inside m hm covers)

theorem IsCover.literals_ne_nil {chosen : List Implicant}
    (cover : IsCover names.length onSet chosen) (proper : ∃ m < 2 ^ names.length, m ∉ onSet) :
    ∀ i ∈ chosen, i.pattern.literalsOver names ≠ [] :=
  fun i hi => literals_ne_nil_of_isPrime proper (cover.prime i hi)

theorem Minimizes.expression_eq_one_iff (h : Minimizes names onSet r)
    (letters : ∀ x ∈ names, Lettered x) :
    r.expression = "1" ↔ ∀ m < 2 ^ names.length, m ∈ onSet := by
  cases h with
  | never empty none text =>
    rw [text, empty]
    exact iff_of_false (by decide) fun full => List.not_mem_nil (full 0 (Nat.two_pow_pos _))
  | always full none text => exact iff_of_true text full
  | sum some proper cover text =>
    have depends := cover.literals_ne_nil proper
    obtain ⟨m, hm, outside⟩ := proper
    rw [text]
    exact iff_of_false (sumText_ne_one letters depends) fun full => outside (full m hm)

theorem Minimizes.expression_eq_zero_iff (h : Minimizes names onSet r)
    (letters : ∀ x ∈ names, Lettered x) : r.expression = "0" ↔ onSet = [] := by
  cases h with
  | never empty none text => exact iff_of_true text empty
  | always full none text =>
    rw [text]
    refine iff_of_false (by decide) fun empty => ?_
    exact List.not_mem_nil (empty ▸ full 0 (Nat.two_pow_pos _))
  | sum some proper cover text =>
    have depends := cover.literals_ne_nil proper
    have letter := lettered_sumText letters (cover.chosen_ne_nil some) depends
    rw [text]
    refine iff_of_false (fun same => ?_) some
    rw [same] at letter
    exact absurd letter (by decide)

/-- The rebuilt formula is true at the minterms of the set, and has no names but those given. -/
theorem Minimizes.value_toFormula (h : Minimizes names onSet r) (same : r.names = names)
    (letters : ∀ x ∈ names, Lettered x) (v : String → Bool) :
    r.toFormula.names ⊆ names ∧
      (r.toFormula.value v = true ↔ numberOf (names.map v) ∈ onSet) := by
  have bound : numberOf (names.map v) < 2 ^ names.length := by
    simpa using numberOf_lt (names.map v)
  have constant := h.expression_eq_one_iff letters
  cases h with
  | never empty none text =>
    have sum : r.toFormula = .const false 0 := by
      rw [toFormula, text, if_neg (by decide), none]
      rfl
    rw [sum, empty]
    exact ⟨fun x hx => absurd hx Formula.not_mem_names_const, by simp [Formula.value]⟩
  | always full none text =>
    have one : r.toFormula = .const true 0 := by rw [toFormula, if_pos text]
    rw [one]
    exact ⟨fun x hx => absurd hx Formula.not_mem_names_const,
      iff_of_true rfl (full _ bound)⟩
  | sum some proper cover text =>
    obtain ⟨m, hm, outside⟩ := proper
    have sum : r.toFormula = Implicant.sumFormula r.chosen names := by
      rw [toFormula, if_neg fun one => outside (constant.mp one m hm), same]
    rw [sum, Implicant.value_sumFormula fun i hi => (cover.prime i hi).length,
      cover.sumCovers_iff bound]
    exact ⟨Implicant.names_sumFormula_subset .., Iff.rfl⟩

theorem Minimizes.toFormula_value (h : Minimizes names onSet r) (same : r.names = names)
    (capital : ∀ x ∈ names, Capitalized x) (v : String → Bool) :
    r.toFormula.names ⊆ names ∧
      (r.toFormula.value v = true ↔ numberOf (names.map v) ∈ onSet) :=
  h.value_toFormula same (fun x hx => (capital x hx).lettered) v

end Minimization

namespace Simplification

variable {solve : Solver} {method : Method} {names : List String} {f : Formula}

theorem ofTable_minimizes (sound : method = .exact → solve.Sound) (few : names.length ≤ 6)
    {t : TruthTable} (named : t.names = names)
    (minterms : t.minterms = TruthTable.mintermsOf f names) :
    ∃ s, ofTable method t f solve = .ok s ∧ s.minimization.names = names ∧
      s.minimization.uncovered = [] ∧
      Minimization.Minimizes names (TruthTable.mintermsOf f names) s.minimization := by
  have onSet := TruthTable.isOnSet_mintermsOf f names
  obtain ⟨r, answer, keeps, uncovered, minimizes⟩ :=
    Minimization.ofOnSet_minimizes sound names onSet
  have reached :=
    Minimization.minimize_eq_ofOnSet method few (Minimization.range_ofNat onSet) solve
  rw [Minimization.onSetOf_ofNat onSet, answer] at reached
  have width : t.width = names.length := by rw [TruthTable.width, named]
  exact ⟨_, by simp only [ofTable, minterms, width, named, reached]; rfl, keeps, uncovered,
    minimizes⟩

/-- Every accepted expression with few enough variables is simplified, completely, to a formula with
the same value under every assignment of the variables. -/
theorem ofText_preserves (sound : method = .exact → solve.Sound) {text : String} {p : Parsed}
    (accepted : Formula.ofText text = .ok p) (few : p.formula.names.length ≤ 6) :
    ∃ s, ofText method text solve = .ok s ∧ s.minimization.uncovered = [] ∧
      s.minimization.isComplete = true ∧
      ∀ a : Assignment, (∀ x ∈ p.formula.names, ∃ b, a.value? x = some b) →
        ∃ b, s.minimization.toFormula.evaluate a = .ok b ∧ p.formula.evaluate a = .ok b := by
  have parsed := accepted
  rw [Formula.ofText] at accepted
  cases scanned : Token.scan text with
  | error cause =>
    rw [scanned] at accepted
    cases accepted
  | ok tokens =>
    rw [scanned] at accepted
    obtain ⟨derived, known⟩ := Formula.derives_of_ofTokens accepted
    have nodup : p.formula.names.Nodup := p.formula.pairwise_names.imp fun below => ne_of_lt below
    have capital : ∀ x ∈ p.formula.names, Capitalized x := by
      intro x hx
      obtain ⟨t, ht, kind, rfl⟩ := (derived.mem_names x).mp (Formula.mem_names_shape.mpr hx)
      exact Token.capitalized_of_scan scanned t ((List.takeWhile_prefix _).subset ht) kind
    have table := TruthTable.ofFormula_eq_ok nodup (List.Subset.refl p.formula.names)
      (few.trans (by decide)) (some text)
    obtain ⟨s, answer, named, uncovered, minimizes⟩ := ofTable_minimizes sound few rfl
      (TruthTable.minterms_tableOf p.formula p.formula.names text)
    refine ⟨s, ?_, uncovered, by rw [Minimization.isComplete, uncovered]; rfl, fun a bound => ?_⟩
    · have limit : ¬Activity.minimization.limit < p.names.length := by
        rw [known]
        exact Nat.not_lt.mpr few
      rw [ofText, parsed]
      simp only [if_neg limit]
      rw [known, table]
      exact answer
    · let v := fun x => (a.value? x).getD false
      have values : ∀ x ∈ p.formula.names, a.value? x = some (v x) := by
        intro x hx
        obtain ⟨b, hb⟩ := bound x hx
        simp [v, hb]
      obtain ⟨sub, value⟩ := minimizes.toFormula_value named capital v
      have same : s.minimization.toFormula.value v = p.formula.value v := by
        rw [Bool.eq_iff_iff, value]
        exact TruthTable.numberOf_mem_mintermsOf (List.Subset.refl _) v
      refine ⟨p.formula.value v, ?_, Formula.evaluate_eq values⟩
      rw [← same]
      exact Formula.evaluate_eq fun x hx => values x (sub hx)

theorem ofText_preserves_absorption :
    ∃ p s, Formula.ofText "A+A*B" = .ok p ∧ ofText .exact "A+A*B" .branchAndBound = .ok s ∧
      s.minimization.uncovered = [] ∧
      ∃ b, s.minimization.toFormula.evaluate (.ofList [("A", true), ("B", false)]) = .ok b ∧
        p.formula.evaluate (.ofList [("A", true), ("B", false)]) = .ok b := by
  let p : Parsed := ⟨.gate .or (.var "A" 1) (.gate .and (.var "A" 2) (.var "B" 3) 4) 5, ["A", "B"]⟩
  have accepted : Formula.ofText "A+A*B" = .ok p := by decide +kernel
  have few : p.formula.names.length ≤ 6 := by decide
  have bound : ∀ x ∈ p.formula.names,
      ∃ b, (Assignment.ofList [("A", true), ("B", false)]).value? x = some b := by
    decide
  have sound : Method.exact = .exact → Solver.branchAndBound.Sound :=
    fun _ => Solver.branchAndBound_optimal.sound
  obtain ⟨s, answer, uncovered, _, preserves⟩ := ofText_preserves sound accepted few
  exact ⟨p, s, accepted, answer, uncovered, preserves _ bound⟩

end Simplification

end Switching
