import Switching.Proofs.Lookup
import Switching.Proofs.Simplification
import Switching.Verification

/-! The check of a minimization against a table. The rebuilt formula, evaluated row by row, and the
implicants, compared with the numbers of the rows, both say which numbers are in the minimized set;
so the check finds exactly the numbers at which the set and the table differ. -/
namespace Switching

namespace Minimization

open Assignment TruthTable

variable {names : List String} {onSet : List Nat} {r : Minimization} {f : Formula} {m : Nat}

theorem Minimizes.valueAt_iff (h : Minimizes names onSet r) (letters : ∀ x ∈ names, Lettered x)
    (hm : m < 2 ^ names.length) : r.valueAt m = true ↔ m ∈ onSet := by
  rw [valueAt, Bool.or_eq_true, beq_iff_eq, h.expression_eq_one_iff letters]
  cases h with
  | never empty none _ =>
    rw [none, empty]
    simp [Implicant.sumCovers]
    exact ⟨m, hm⟩
  | always full none _ => exact iff_of_true (.inr full) (full m hm)
  | sum _ proper cover _ =>
    obtain ⟨k, hk, outside⟩ := proper
    rw [cover.sumCovers_iff hm]
    exact or_iff_left fun full => outside (full k hk)

theorem Minimizes.evaluate_row (h : Minimizes names onSet r) (same : r.names = names)
    (nodup : names.Nodup) (letters : ∀ x ∈ names, Lettered x) (hm : m < 2 ^ names.length) :
    r.toFormula.evaluate (ofNumber m names) = .ok (decide (m ∈ onSet)) := by
  obtain ⟨v, rfl⟩ := exists_numberOf nodup hm
  obtain ⟨sub, value⟩ := h.value_toFormula same letters v
  rw [Formula.evaluate_eq fun x hx => value?_ofNumber_numberOf (sub hx)]
  exact congrArg Except.ok (Bool.eq_iff_iff.mpr (value.trans (decide_eq_true_iff).symm))

def differenceAt (onSet tabled : List Nat) (m : Nat) : Option Mismatch :=
  if m ∈ onSet ↔ m ∈ tabled then none else some ⟨m, decide (m ∈ tabled), decide (m ∈ onSet)⟩

section Difference

variable {tabled : List Nat} {e : Mismatch}

theorem differenceAt_eq_none :
    differenceAt onSet tabled m = none ↔ (m ∈ onSet ↔ m ∈ tabled) := by
  unfold differenceAt
  split
  · exact iff_of_true rfl ‹_›
  · exact iff_of_false (fun none => nomatch none) ‹_›

theorem of_differenceAt (h : differenceAt onSet tabled m = some e) :
    e.minterm = m ∧ e.expected = decide (m ∈ tabled) ∧ e.actual = !e.expected ∧
      ¬(m ∈ onSet ↔ m ∈ tabled) := by
  unfold differenceAt at h
  split at h
  · cases h
  · rename_i differ
    cases h
    refine ⟨rfl, rfl, ?_, differ⟩
    by_cases member : m ∈ tabled <;> simp_all

def differences (width : Nat) (onSet tabled : List Nat) : List Mismatch :=
  (List.range (2 ^ width)).filterMap (differenceAt onSet tabled)

theorem mem_differences {width : Nat} :
    e ∈ differences width onSet tabled ↔
      e.minterm < 2 ^ width ∧ differenceAt onSet tabled e.minterm = some e := by
  unfold differences
  rw [List.mem_filterMap]
  constructor
  · rintro ⟨m, hm, found⟩
    obtain ⟨rfl, _⟩ := of_differenceAt found
    exact ⟨List.mem_range.mp hm, found⟩
  · rintro ⟨hm, found⟩
    exact ⟨_, List.mem_range.mpr hm, found⟩

theorem pairwise_differences (width : Nat) (onSet tabled : List Nat) :
    (differences width onSet tabled).Pairwise fun e e' => e.minterm < e'.minterm := by
  apply List.Pairwise.filterMap _ _ List.pairwise_lt_range
  intro m m' below e found e' found'
  obtain ⟨rfl, _⟩ := of_differenceAt found
  obtain ⟨rfl, _⟩ := of_differenceAt found'
  exact below

theorem exists_difference_iff {width : Nat} (bound : ∀ m ∈ onSet, m < 2 ^ width)
    (bound' : ∀ m ∈ tabled, m < 2 ^ width) :
    (∃ e ∈ differences width onSet tabled, e.minterm = m) ↔ ¬(m ∈ onSet ↔ m ∈ tabled) := by
  constructor
  · rintro ⟨e, he, rfl⟩
    exact (of_differenceAt (mem_differences.mp he).2).2.2.2
  · intro differ
    have hm : m < 2 ^ width := by
      by_contra above
      exact differ (iff_of_false (fun member => above (bound m member))
        fun member => above (bound' m member))
    obtain ⟨e, found⟩ := Option.ne_none_iff_exists'.mp fun none =>
      differ (differenceAt_eq_none.mp none)
    obtain ⟨rfl, _⟩ := of_differenceAt found
    exact ⟨e, mem_differences.mpr ⟨hm, found⟩, rfl⟩

theorem differences_eq_nil {width : Nat} (bound : ∀ m ∈ onSet, m < 2 ^ width)
    (bound' : ∀ m ∈ tabled, m < 2 ^ width) :
    differences width onSet tabled = [] ↔ ∀ m, m ∈ onSet ↔ m ∈ tabled := by
  rw [List.eq_nil_iff_forall_not_mem]
  constructor
  · intro none m
    by_contra differ
    obtain ⟨e, he, _⟩ := (exists_difference_iff bound bound').mpr differ
    exact none e he
  · intro same e he
    exact (exists_difference_iff bound bound').mp ⟨e, he, rfl⟩ (same e.minterm)

end Difference

theorem mem_mintermsOf_iff (hm : m < 2 ^ names.length) :
    m ∈ mintermsOf f names ↔ f.value (valuation names m) = true := by
  unfold mintermsOf
  rw [List.mem_filter, List.mem_range]
  exact and_iff_right hm

theorem output_rowOf (hm : m < 2 ^ names.length) :
    (rowOf f names m).output = decide (m ∈ mintermsOf f names) :=
  Bool.eq_iff_iff.mpr ((mem_mintermsOf_iff hm).symm.trans decide_eq_true_iff.symm)

theorem Minimizes.verify_eq (h : Minimizes names onSet r) (same : r.names = names)
    (nodup : names.Nodup) (letters : ∀ x ∈ names, Lettered x) (expression : String) :
    r.verify (tableOf f names expression) =
      .ok (.rows (differences names.length onSet (mintermsOf f names))) := by
  have row : ∀ m ∈ List.range (2 ^ names.length),
      mismatch? r.toFormula (rowOf f names m) = .ok (differenceAt onSet (mintermsOf f names) m) := by
    intro m listed
    have hm := List.mem_range.mp listed
    have evaluated : r.toFormula.evaluate (rowOf f names m).inputs = .ok (decide (m ∈ onSet)) :=
      h.evaluate_row same nodup letters hm
    unfold mismatch? differenceAt
    rw [evaluated, output_rowOf hm]
    simp only [decide_eq_decide]
    rfl
  have rows : (tableOf f names expression).rows.mapM (mismatch? r.toFormula) =
      .ok ((List.range (2 ^ names.length)).map (differenceAt onSet (mintermsOf f names))) := by
    unfold tableOf
    rw [List.mapM_map]
    exact mapM_eq_ok row
  have named : ¬r.names ≠ (tableOf f names expression).names := not_not_intro same
  unfold verify
  rw [if_neg named, rows]
  simp only [List.filterMap_map]
  rfl

theorem Minimizes.matchesTable_iff (h : Minimizes names onSet r)
    (letters : ∀ x ∈ names, Lettered x) (expression : String) :
    r.matchesTable (tableOf f names expression) = true ↔
      ∀ m < 2 ^ names.length, m ∈ onSet ↔ m ∈ mintermsOf f names := by
  unfold matchesTable tableOf
  simp only [List.all_map, List.all_eq_true, List.mem_range]
  refine forall₂_congr fun m hm => ?_
  rw [Function.comp, matchesRow, output_rowOf hm, beq_iff_eq, Bool.eq_iff_iff, decide_eq_true_iff]
  exact iff_congr (h.valueAt_iff letters hm) Iff.rfl

/-- Both checks of a minimized set against a table hold exactly if the set is that of the minterms of
the table. The first one lists the numbers at which they differ, ascending, each with the output of
the table and the opposite. The names are words: all that matters is that they begin with a
letter. -/
theorem verify_decides {solve : Solver} {method : Method} {minterms : List Int}
    {expression? : Option String} {t : TruthTable} (sound : method = .exact → solve.Sound)
    (few : names.length ≤ 6) (nodup : names.Nodup) (letters : ∀ x ∈ names, Lettered x)
    (range : ∀ m ∈ minterms, 0 ≤ m ∧ m < 2 ^ names.length)
    (made : ofFormula f (some names) expression? = .ok t) :
    ∃ r errors, minimize method minterms names.length (some names) solve = .ok r ∧
      r.verify t = .ok (.rows errors) ∧
      ((Verdict.rows errors).holds = true ↔ ∀ m : Nat, (m : Int) ∈ minterms ↔ m ∈ t.minterms) ∧
      (Verdict.rows errors).messages = errors.map (fun e =>
        "Minterm " ++ toString e.minterm ++ ": expected " ++ bitText e.expected ++ ", got " ++
          bitText e.actual) ∧
      errors.Pairwise (fun e e' => e.minterm < e'.minterm) ∧
      (∀ m : Nat, (∃ e ∈ errors, e.minterm = m) ↔ ¬((m : Int) ∈ minterms ↔ m ∈ t.minterms)) ∧
      (∀ e ∈ errors, t.rows[e.minterm]?.map (·.output) = some e.expected ∧
        e.actual = !e.expected) ∧
      (r.matchesTable t = true ↔ ∀ m : Nat, (m : Int) ∈ minterms ↔ m ∈ t.minterms) := by
  obtain ⟨rfl, _⟩ := of_ofFormula made
  rw [minterms_tableOf]
  have onSet := isOnSet_onSetOf range
  have tabled := isOnSet_mintermsOf f names
  have member : ∀ m : Nat, (m : Int) ∈ minterms ↔ m ∈ onSetOf minterms :=
    fun m => (mem_onSetOf fun k hk => (range k hk).1).symm
  obtain ⟨r, answer, same, _, minimizes⟩ := ofOnSet_minimizes sound names onSet
  refine ⟨r, differences names.length (onSetOf minterms) (mintermsOf f names),
    (minimize_eq_ofOnSet method few range solve).trans answer,
    minimizes.verify_eq same nodup letters _, ?_, rfl, pairwise_differences .., ?_, ?_, ?_⟩
  · simp only [member, Verdict.holds, List.isEmpty_iff]
    exact differences_eq_nil onSet.bound tabled.bound
  · simp only [member]
    exact fun m => exists_difference_iff onSet.bound tabled.bound
  · intro e he
    obtain ⟨hm, found⟩ := mem_differences.mp he
    obtain ⟨_, expected, actual, _⟩ := of_differenceAt found
    refine ⟨?_, actual⟩
    rw [tableOf, List.getElem?_map, List.getElem?_range hm, Option.map_some, Option.map_some,
      output_rowOf hm, expected]
  · simp only [member]
    rw [minimizes.matchesTable_iff letters]
    constructor
    · intro same m
      by_cases hm : m < 2 ^ names.length
      · exact same m hm
      · exact iff_of_false (fun listed => hm (onSet.bound m listed))
          fun listed => hm (tabled.bound m listed)
    · exact fun same m _ => same m

theorem verify_decides_conjunction :
    let f : Formula := .gate .and (.var "a" 1) (.var "b" 2) 3
    ∃ t r errors, ofFormula f (some ["a", "b"]) = .ok t ∧
      minimize .exact [3, 0] 2 (some ["a", "b"]) = .ok r ∧ r.verify t = .ok (.rows errors) ∧
      (Verdict.rows errors).holds ≠ true ∧ (∃ e ∈ errors, e.minterm = 0) ∧
      r.matchesTable t ≠ true := by
  intro f
  have made : ofFormula f (some ["a", "b"]) none = .ok (tableOf f ["a", "b"] f.infixText) := by
    decide +kernel
  have sound : Method.exact = .exact → Solver.branchAndBound.Sound :=
    fun _ => Solver.branchAndBound_optimal.sound
  have range : ∀ m ∈ ([3, 0] : List Int), 0 ≤ m ∧ m < 2 ^ ["a", "b"].length := by decide
  obtain ⟨r, errors, answer, verified, holds, _, _, listed, _, matched⟩ :=
    verify_decides sound (by decide) (by decide) (by decide) range made
  have differ : ¬(((0 : Nat) : Int) ∈ ([3, 0] : List Int) ↔
      0 ∈ (tableOf f ["a", "b"] f.infixText).minterms) := by decide +kernel
  exact ⟨_, r, errors, made, answer, verified, fun same => differ (holds.mp same 0),
    (listed 0).mpr differ, fun same => differ (matched.mp same 0)⟩

end Minimization

end Switching
