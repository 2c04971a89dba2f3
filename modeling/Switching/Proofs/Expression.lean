import Switching.Proofs.Simplification
import Switching.Proofs.Spelling

/-! What the text of a minimal sum says about its function. If the names can be told apart, it says
at which minterms the function is 1. If they cannot, there are two products over different names
that are written alike, and each of them is the minimal sum of its own minterms. -/
namespace Switching

namespace Pattern

variable {names ks : List String}

def ofNames (names ks : List String) : Pattern :=
  names.map fun x => if x ∈ ks then .one else .dash

theorem length_ofNames (names ks : List String) : (ofNames names ks).length = names.length :=
  List.length_map ..

theorem literalsOver_ofNames_eq_filter (names ks : List String) :
    (ofNames names ks).literalsOver names = (names.filter (· ∈ ks)).map (·, true) := by
  unfold ofNames literalsOver
  induction names with
  | nil => rfl
  | cons x xs ih =>
    rw [List.map_cons, List.zip_cons_cons, List.filterMap_cons, ih, List.filter_cons]
    by_cases member : x ∈ ks
    · simp [member]
    · simp [member]

theorem literalsOver_ofNames (nodup : names.Nodup) (sub : ks.Sublist names) :
    (ofNames names ks).literalsOver names = ks.map (·, true) := by
  rw [literalsOver_ofNames_eq_filter, filter_mem_eq_of_sublist nodup sub]

theorem mem_minterms_ofNames (nodup : names.Nodup) (sub : ks.Sublist names) (v : String → Bool) :
    numberOf (names.map v) ∈ (ofNames names ks).minterms names.length ↔
      ∀ x ∈ ks, v x = true := by
  have bound : numberOf (names.map v) < 2 ^ names.length := by
    simpa using numberOf_lt (names.map v)
  have same : (ofNames names ks).length = (names.map v).length := by
    rw [length_ofNames, List.length_map]
  rw [mem_minterms, and_iff_right bound, covers_numberOf_eq same,
    ← Implicant.all_literals (length_ofNames names ks), literalsOver_ofNames nodup sub]
  simp

theorem eq_of_minterms_ofNames (nodup : names.Nodup) {ls : List String} (subK : ks.Sublist names)
    (subL : ls.Sublist names)
    (same : ∀ m, m ∈ (ofNames names ks).minterms names.length ↔
      m ∈ (ofNames names ls).minterms names.length) : ks = ls := by
  have products : ∀ v : String → Bool, (∀ x ∈ ks, v x = true) ↔ ∀ x ∈ ls, v x = true := by
    intro v
    rw [← mem_minterms_ofNames nodup subK, ← mem_minterms_ofNames nodup subL]
    exact same _
  -- one product is 1 where just its own names are 1, and so is the other
  have ahead := (products fun x => decide (x ∈ ks)).mp (by simp)
  have back := (products fun x => decide (x ∈ ls)).mpr (by simp)
  rw [← filter_mem_eq_of_sublist nodup subK, ← filter_mem_eq_of_sublist nodup subL]
  apply List.filter_congr
  intro x _
  rw [decide_eq_decide]
  constructor
  · exact fun hx => by simpa using back x hx
  · exact fun hx => by simpa using ahead x hx

theorem isOnSet_minterms (width : Nat) (p : Pattern) : IsOnSet width (p.minterms width) where
  ascending := p.pairwise_minterms width
  bound _ hm := (mem_minterms.mp hm).1

end Pattern

namespace Minimization

variable {names : List String} {onSet onSet' : List Nat} {r r' : Minimization} {solve : Solver}
  {method : Method}

theorem sumCovers_of_terms (apart : SpellsApart names) (nodup : names.Nodup)
    (identifiers : ∀ x ∈ names, IsIdentifier x) (proper : ∃ m < 2 ^ names.length, m ∉ onSet)
    (proper' : ∃ m < 2 ^ names.length, m ∉ onSet') {is js : List Implicant}
    (cover : IsCover names.length onSet is) (cover' : IsCover names.length onSet' js)
    (terms : is.map (·.term names) = js.map (·.term names)) {m : Nat}
    (hm : m < 2 ^ names.length) (covers : Implicant.sumCovers is m = true) :
    Implicant.sumCovers js m = true := by
  obtain ⟨i, hi, covered⟩ := List.any_eq_true.mp covers
  obtain ⟨j, hj, term⟩ := List.mem_map.mp (terms ▸ List.mem_map_of_mem hi)
  have literals := Implicant.literals_eq_of_term apart identifiers
    (cover'.literals_ne_nil proper' j hj) (cover.literals_ne_nil proper i hi) term
  have same := Implicant.covers_eq_of_literals nodup (cover'.prime j hj).length
    (cover.prime i hi).length literals hm
  exact List.any_eq_true.mpr ⟨j, hj, same.trans covered⟩

theorem Minimizes.mem_iff (apart : SpellsApart names) (nodup : names.Nodup)
    (identifiers : ∀ x ∈ names, IsIdentifier x) (h : Minimizes names onSet r)
    (h' : Minimizes names onSet' r') (same : r.expression = r'.expression) {m : Nat}
    (hm : m < 2 ^ names.length) : m ∈ onSet ↔ m ∈ onSet' := by
  have letters : ∀ x ∈ names, Lettered x := fun x hx => (identifiers x hx).capitalized.lettered
  have zero := h.expression_eq_zero_iff letters
  have one := h.expression_eq_one_iff letters
  cases h' with
  | never empty' none' text' => rw [zero.mp (same.trans text'), empty']
  | always full' none' text' =>
    exact iff_of_true (one.mp (same.trans text') m hm) (full' m hm)
  | sum some' proper' cover' text' =>
    cases h with
    | never empty none text =>
      have letter := lettered_sumText letters (cover'.chosen_ne_nil some')
        (cover'.literals_ne_nil proper')
      rw [← text', ← same, text] at letter
      exact absurd letter (by decide)
    | always full none text =>
      have letter := lettered_sumText letters (cover'.chosen_ne_nil some')
        (cover'.literals_ne_nil proper')
      rw [← text', ← same, text] at letter
      exact absurd letter (by decide)
    | sum some proper cover text =>
      rw [text, text'] at same
      have terms := Implicant.terms_eq_of_sumText identifiers (cover.chosen_ne_nil some)
        (cover'.chosen_ne_nil some') same
      rw [← cover.sumCovers_iff hm, ← cover'.sumCovers_iff hm]
      constructor
      · exact sumCovers_of_terms apart nodup identifiers proper proper' cover cover' terms hm
      · exact sumCovers_of_terms apart nodup identifiers proper' proper cover' cover terms.symm hm

theorem ofOnSet_product (sound : method = .exact → solve.Sound) {p : Pattern}
    (length : p.length = names.length) (depends : p.literalsOver names ≠ []) :
    ∃ r, ofOnSet method names (p.minterms names.length) solve = .ok r ∧
      r.expression = Implicant.literalsText (p.literalsOver names) := by
  obtain ⟨r, answer, _, _, minimizes⟩ :=
    ofOnSet_minimizes sound names (p.isOnSet_minterms names.length)
  refine ⟨r, answer, ?_⟩
  cases minimizes with
  | never empty none text =>
    obtain ⟨m, hm, covers⟩ := p.exists_covers
    have member : m ∈ p.minterms names.length := Pattern.mem_minterms.mpr ⟨length ▸ hm, covers⟩
    rw [empty] at member
    cases member
  | always full none text =>
    -- a literal is not true for all values
    obtain ⟨⟨x, b⟩, ls, literals⟩ := List.exists_cons_of_ne_nil depends
    let v := fun _ : String => !b
    have same : p.length = (names.map v).length := by rw [List.length_map, length]
    have bound : numberOf (names.map v) < 2 ^ names.length := by
      simpa using numberOf_lt (names.map v)
    have whole := (Pattern.mem_minterms.mp (full _ bound)).2
    rw [Pattern.covers_numberOf_eq same, ← Implicant.all_literals length, literals] at whole
    simp [v] at whole
  | sum some proper cover text =>
    have each : ∀ i ∈ r.chosen, i.pattern = p :=
      fun i hi => (cover.prime i hi).eq_of_minterms length
    have alike : r.chosen.map (·.pattern) = List.replicate r.chosen.length p := by
      rw [← List.length_map (·.pattern)]
      exact List.eq_replicate_of_mem (List.forall_mem_map.mpr each)
    have once := nodup_of_ofOnSet answer
    rw [alike, List.nodup_replicate] at once
    have any := List.length_pos_of_ne_nil (cover.chosen_ne_nil some)
    obtain ⟨i, single⟩ := List.length_eq_one_iff.mp (Nat.le_antisymm once any)
    have pattern := each i (single ▸ List.mem_singleton.mpr rfl)
    have term : Implicant.sumText [i] names = i.term names := rfl
    rw [text, single, term, Implicant.term_eq_literalsText (pattern ▸ depends), pattern]

theorem minimize_product (sound : method = .exact → solve.Sound) (few : names.length ≤ 6)
    (nodup : names.Nodup) {ks : List String} (sub : ks.Sublist names) (any : ks ≠ []) :
    ∃ r, minimize method (((Pattern.ofNames names ks).minterms names.length).map Int.ofNat)
        names.length (some names) solve = .ok r ∧ r.expression = String.join ks := by
  have literals := Pattern.literalsOver_ofNames nodup sub
  have onSet := (Pattern.ofNames names ks).isOnSet_minterms names.length
  obtain ⟨r, answer, text⟩ := ofOnSet_product sound
    (Pattern.length_ofNames names ks) (by simpa [literals] using any)
  refine ⟨r, ?_, ?_⟩
  · rw [minimize_eq_ofOnSet method few (range_ofNat onSet), onSetOf_ofNat onSet, answer]
  · rw [text, literals, Implicant.literalsText, List.map_map]
    simp [Function.comp_def]

theorem exists_minimize (sound : method = .exact → solve.Sound) (few : names.length ≤ 6)
    {minterms : List Int} (range : ∀ m ∈ minterms, 0 ≤ m ∧ m < 2 ^ names.length) :
    ∃ r, minimize method minterms names.length (some names) solve = .ok r ∧
      Minimizes names (onSetOf minterms) r := by
  obtain ⟨r, answer, _, _, minimizes⟩ := ofOnSet_minimizes sound names (isOnSet_onSetOf range)
  exact ⟨r, (minimize_eq_ofOnSet method few range solve).trans answer, minimizes⟩

theorem mem_iff_of_onSetOf {width : Nat} {minterms minterms' : List Int}
    (range : ∀ m ∈ minterms, 0 ≤ m ∧ m < 2 ^ width)
    (range' : ∀ m ∈ minterms', 0 ≤ m ∧ m < 2 ^ width)
    (same : ∀ m < 2 ^ width, m ∈ onSetOf minterms ↔ m ∈ onSetOf minterms') (m : Int) :
    m ∈ minterms ↔ m ∈ minterms' := by
  have within : ∀ k : Nat, k < 2 ^ width → ((k : Int) ∈ minterms ↔ (k : Int) ∈ minterms') := by
    intro k hk
    rw [← mem_onSetOf fun l hl => (range l hl).1, ← mem_onSetOf fun l hl => (range' l hl).1]
    exact same k hk
  constructor
  · intro hm
    obtain ⟨k, rfl⟩ := Int.eq_ofNat_of_zero_le (range m hm).1
    exact (within k (by exact_mod_cast (range _ hm).2)).mp hm
  · intro hm
    obtain ⟨k, rfl⟩ := Int.eq_ofNat_of_zero_le (range' m hm).1
    exact (within k (by exact_mod_cast (range' _ hm).2)).mpr hm

end Minimization

open Minimization

/-- The text of a minimal sum determines at which minterms the function is 1, by either method,
exactly if no two choices of the names run together to the same text. -/
theorem expression_determines_iff {solve : Solver} {method : Method}
    (sound : method = .exact → solve.Sound) {names : List String} (few : names.length ≤ 6)
    (nodup : names.Nodup) (identifiers : ∀ x ∈ names, IsIdentifier x) :
    SpellsApart names ↔
      ∀ minterms minterms' : List Int, (∀ m ∈ minterms, 0 ≤ m ∧ m < 2 ^ names.length) →
        (∀ m ∈ minterms', 0 ≤ m ∧ m < 2 ^ names.length) →
        ∃ r r', minimize method minterms names.length (some names) solve = .ok r ∧
          minimize method minterms' names.length (some names) solve = .ok r' ∧
          (r.expression = r'.expression → ∀ m, m ∈ minterms ↔ m ∈ minterms') := by
  constructor
  · intro apart minterms minterms' range range'
    obtain ⟨r, answer, minimizes⟩ := exists_minimize sound few range
    obtain ⟨r', answer', minimizes'⟩ := exists_minimize sound few range'
    refine ⟨r, r', answer, answer', fun same => ?_⟩
    apply mem_iff_of_onSetOf range range'
    exact fun m hm => minimizes.mem_iff apart nodup identifiers minimizes' same hm
  · intro determines ks ls subK subL same
    have filled : ∀ js : List String, js.Sublist names → String.join js = "" → js = [] :=
      fun js sub => eq_nil_of_join fun x hx => (identifiers x (sub.subset hx)).ne_empty
    by_cases noneK : ks = []
    · rw [noneK] at same
      rw [noneK, filled ls subL same.symm]
    by_cases noneL : ls = []
    · rw [noneL] at same
      rw [noneL, filled ks subK same]
    -- the products of the two choices are minimal and written alike
    obtain ⟨r, answer, text⟩ := minimize_product sound few nodup subK noneK
    obtain ⟨r', answer', text'⟩ := minimize_product sound few nodup subL noneL
    obtain ⟨s, s', found, found', equal⟩ := determines _ _
      (range_ofNat ((Pattern.ofNames names ks).isOnSet_minterms names.length))
      (range_ofNat ((Pattern.ofNames names ls).isOnSet_minterms names.length))
    cases answer.symm.trans found
    cases answer'.symm.trans found'
    have members := equal (by rw [text, text', same])
    apply Pattern.eq_of_minterms_ofNames nodup subK subL
    exact fun m => by simpa using members m

theorem expression_determines_adder :
    let names := ["A", "B", "CIN"]
    (∀ x ∈ names, IsIdentifier x) ∧ SpellsApart names ∧
    ∃ r r', minimize .greedy [3, 5, 6, 7] 3 (some names) = .ok r ∧
      minimize .greedy [1, 2, 4, 7] 3 (some names) = .ok r' ∧
      (r.expression = r'.expression → ∀ m : Int, m ∈ [3, 5, 6, 7] ↔ m ∈ [1, 2, 4, 7]) := by
  intro names
  have identifiers : ∀ x ∈ names, IsIdentifier x := by decide
  have apart : SpellsApart names := spellsApart_of_no_prefix (by decide) (by decide)
  have sound : Method.greedy = .exact → Solver.branchAndBound.Sound := fun other => nomatch other
  have determines := (expression_determines_iff sound (by decide) (by decide) identifiers).mp apart
  exact ⟨identifiers, apart, determines [3, 5, 6, 7] [1, 2, 4, 7] (by decide) (by decide)⟩

/-- The product of `A` and `B` is written like the variable `AB`. -/
theorem expression_shared :
    let names := ["A", "AB", "B"]
    (∀ x ∈ names, IsIdentifier x) ∧ names.Nodup ∧ ∃ r r',
      minimize .greedy [5, 7] 3 (some names) = .ok r ∧
      minimize .greedy [2, 3, 6, 7] 3 (some names) = .ok r' ∧ r.expression = r'.expression ∧
      ¬∀ m : Int, m ∈ [5, 7] ↔ m ∈ [2, 3, 6, 7] := by
  intro names
  have written : ∀ {e : Except Fault Minimization}, e.map (·.expression) = .ok "AB" →
      ∃ r, e = .ok r ∧ r.expression = "AB" := by
    rintro (cause | r) text
    · cases text
    · exact ⟨r, rfl, Except.ok.inj text⟩
  obtain ⟨r, product, text⟩ := written (e := minimize .greedy [5, 7] 3 (some names))
    (by decide +kernel)
  obtain ⟨r', single, text'⟩ := written (e := minimize .greedy [2, 3, 6, 7] 3 (some names))
    (by decide +kernel)
  refine ⟨by decide, by decide, r, r', product, single, text.trans text'.symm, fun same => ?_⟩
  exact absurd ((same 5).mp (by decide)) (by decide)

end Switching
