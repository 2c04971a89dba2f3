import Switching.Proofs.OnSet

/-! The least price of a sum of products for a function. Every product inside the function can be
enlarged to a prime implicant, which has no more literals and so costs no more; among the prime
implicants an optimal solver makes the cheapest choice. -/
namespace Switching

namespace Implicant

theorem price_mono {i j : Implicant} (h : i.literals ≤ j.literals) : i.price ≤ j.price := by
  unfold price
  split <;> split <;> omega

end Implicant

namespace Cover

variable {is : List Implicant} {i : Implicant} {place m : Nat}

theorem sumPrice_picked_cons_le (h : is[place]? = some i) (places : List Nat) :
    Implicant.sumPrice (picked is (place :: places)) ≤
      i.price + Implicant.sumPrice (picked is places) := by
  have column : (i.price, place) ∈ (Covering.ofImplicants is []).prices.zipIdx := by
    rw [List.mem_zipIdx_iff_getElem?, Covering.ofImplicants, List.getElem?_map, h]
    rfl
  have step := Column.cost_cons_le (List.mem_map_of_mem column) places
  rwa [cost_ofImplicants, cost_ofImplicants] at step

theorem sumCovers_picked : Implicant.sumCovers (picked is places) m = true ↔
    ∃ place ∈ places, ∃ i, is[place]? = some i ∧ i.covers m = true := by
  rw [Implicant.sumCovers, List.any_eq_true]
  constructor
  · rintro ⟨i, hi, covers⟩
    obtain ⟨place, member, entry⟩ := mem_picked.mp hi
    exact ⟨place, member, i, entry, covers⟩
  · rintro ⟨place, member, i, entry, covers⟩
    exact ⟨i, mem_picked.mpr ⟨place, member, entry⟩, covers⟩

end Cover

variable {width : Nat} {onSet : List Nat}

/-- Products inside the set can be replaced by prime implicants that cover no less and cost no
more. -/
theorem IsOnSet.exists_cheaper (h : IsOnSet width onSet) {terms : List Implicant}
    (length : ∀ t ∈ terms, t.pattern.length = width)
    (inside : ∀ t ∈ terms, t.pattern.Inside width onSet) :
    ∃ places,
      Implicant.sumPrice (Cover.picked (Implicant.primes onSet width) places) ≤
        Implicant.sumPrice terms ∧
      ∀ m < 2 ^ width, Implicant.sumCovers terms m = true →
        Implicant.sumCovers (Cover.picked (Implicant.primes onSet width) places) m = true := by
  induction terms with
  | nil => exact ⟨[], by simp [Cover.picked], fun m _ covers => by cases covers⟩
  | cons t ts ih =>
    obtain ⟨places, cheap, covers⟩ := ih (fun u hu => length u (List.mem_cons_of_mem _ hu))
      fun u hu => inside u (List.mem_cons_of_mem _ hu)
    obtain ⟨q, prime, literals, larger⟩ := Pattern.exists_prime
      (length t (List.mem_cons_self ..)) (inside t (List.mem_cons_self ..))
    obtain ⟨i, hi, rfl⟩ := List.mem_map.mp ((Implicant.mem_patterns_primes h.bound).mpr prime)
    obtain ⟨place, entry⟩ := List.mem_iff_getElem?.mp hi
    refine ⟨place :: places, ?_, fun m hm hc => ?_⟩
    · have step := Cover.sumPrice_picked_cons_le entry places
      have price : i.price ≤ t.price := Implicant.price_mono literals
      have sum : Implicant.sumPrice (t :: ts) = t.price + Implicant.sumPrice ts := rfl
      omega
    · rw [Implicant.sumCovers, List.any_cons, Bool.or_eq_true] at hc
      rw [Cover.sumCovers_picked]
      rcases hc with hc | hc
      · exact ⟨place, List.mem_cons_self .., i, entry, larger m hm hc⟩
      · obtain ⟨k, hk, rest⟩ := Cover.sumCovers_picked.mp (covers m hm hc)
        exact ⟨k, List.mem_cons_of_mem _ hk, rest⟩

namespace Minimization

variable {solve : Solver} {names : List String} {r : Minimization}

structure Sums (width : Nat) (onSet : List Nat) (terms : List Implicant) : Prop where
  length : ∀ t ∈ terms, t.pattern.length = width
  covers : ∀ m < 2 ^ width, Implicant.sumCovers terms m = true ↔ m ∈ onSet

theorem Sums.inside {terms : List Implicant} (h : Sums width onSet terms) :
    ∀ t ∈ terms, t.pattern.Inside width onSet :=
  fun t ht m hm hc => (h.covers m hm).mp (List.any_eq_true.mpr ⟨t, ht, hc⟩)

theorem Minimizes.sums (h : Minimizes names onSet r)
    (proper : ∃ m < 2 ^ names.length, m ∉ onSet) : Sums names.length onSet r.chosen := by
  obtain ⟨k, hk, outside⟩ := proper
  cases h with
  | never empty none text =>
    rw [empty, none]
    exact ⟨nofun, fun m _ => by simp [Implicant.sumCovers]⟩
  | always full none text => exact absurd (full k hk) outside
  | sum some proper cover text =>
    exact ⟨fun t ht => (cover.prime t ht).length, fun m hm => cover.sumCovers_iff hm⟩

theorem Minimizes.expression_eq_one (h : Minimizes names onSet r)
    (full : ∀ m < 2 ^ names.length, m ∈ onSet) : r.chosen = [] ∧ r.expression = "1" := by
  cases h with
  | never empty none text => exact absurd (full 0 (Nat.two_pow_pos _)) (empty ▸ List.not_mem_nil)
  | always full none text => exact ⟨none, text⟩
  | sum some proper cover text =>
    obtain ⟨m, hm, outside⟩ := proper
    exact absurd (full m hm) outside

theorem cover_least (optimal : solve.Optimal) (h : IsOnSet width onSet) :
    ∃ c, cover .exact (Implicant.primes onSet width) onSet solve = .ok c ∧
      ∀ terms, Sums width onSet terms → Implicant.sumPrice c.chosen ≤ Implicant.sumPrice terms := by
  obtain ⟨chosen, answer, least⟩ := Cover.exact_least optimal fun m hm => h.covered hm
  refine ⟨⟨chosen, _⟩, by simp only [cover, answer]; rfl, fun terms sums => ?_⟩
  obtain ⟨places, cheap, covers⟩ := h.exists_cheaper sums.length sums.inside
  have bound := least places fun m hm =>
    covers m (h.bound m hm) ((sums.covers m (h.bound m hm)).mpr hm)
  exact Nat.le_trans bound cheap

theorem ofOnSet_least (optimal : solve.Optimal) (h : IsOnSet names.length onSet) :
    ∃ r, ofOnSet .exact names onSet solve = .ok r ∧ r.uncovered = [] ∧
      Minimizes names onSet r ∧ ∀ terms, Sums names.length onSet terms →
        Implicant.sumPrice r.chosen ≤ Implicant.sumPrice terms := by
  obtain ⟨r, answer, _, uncovered, minimizes⟩ :=
    ofOnSet_minimizes (fun _ => optimal.sound) names h
  refine ⟨r, answer, uncovered, minimizes, ?_⟩
  obtain ⟨b, rfl⟩ | ⟨_, c, found, _, chosen, _⟩ := of_ofOnSet answer
  · exact fun _ _ => Nat.zero_le _
  · obtain ⟨c', found', least⟩ := cover_least optimal h
    cases found.symm.trans found'
    exact chosen ▸ least

end Minimization

/-- Exact minimization gives a sum for the minterms, or the constant if they are all there are, and
reaches the least price of all sums of products for them, whether their terms are prime or not. -/
theorem minimize_exact_least {solve : Solver} (optimal : solve.Optimal) {width : Nat}
    (small : width ≤ 6) {minterms : List Int} (range : ∀ m ∈ minterms, 0 ≤ m ∧ m < 2 ^ width) :
    ∃ r, minimize .exact minterms width none solve = .ok r ∧ r.uncovered = [] ∧
      ((∃ m : Nat, m < 2 ^ width ∧ (m : Int) ∉ minterms) →
        (∀ t ∈ r.chosen, t.pattern.length = width) ∧
        ∀ m : Nat, m < 2 ^ width →
          (Implicant.sumCovers r.chosen m = true ↔ (m : Int) ∈ minterms)) ∧
      ((∀ m : Nat, m < 2 ^ width → (m : Int) ∈ minterms) →
        r.chosen = [] ∧ r.expression = "1") ∧
      ∀ terms : List Implicant, (∀ t ∈ terms, t.pattern.length = width) →
        (∀ m : Nat, m < 2 ^ width →
          (Implicant.sumCovers terms m = true ↔ (m : Int) ∈ minterms)) →
        Implicant.sumPrice r.chosen ≤ Implicant.sumPrice terms := by
  have names : (Minimization.defaultNames width).length = width := by
    simp [Minimization.defaultNames]
  have same : minimize .exact minterms width none solve =
      minimize .exact minterms width (some (Minimization.defaultNames width)) solve := rfl
  have onSet := Minimization.isOnSet_onSetOf range
  have member : ∀ m : Nat, m ∈ Minimization.onSetOf minterms ↔ (m : Int) ∈ minterms :=
    fun _ => Minimization.mem_onSetOf fun k hk => (range k hk).1
  rw [← names] at range small onSet
  obtain ⟨r, answer, uncovered, minimizes, least⟩ := Minimization.ofOnSet_least optimal onSet
  have reached := Minimization.minimize_eq_ofOnSet .exact small range solve
  have sums := minimizes.sums
  have constant := minimizes.expression_eq_one
  simp only [names, member] at reached least sums constant
  refine ⟨r, by rw [same, reached, answer], uncovered, fun proper => ?_, constant,
    fun terms length covers => ?_⟩
  · obtain ⟨length, covers⟩ := sums proper
    exact ⟨length, fun m hm => (covers m hm).trans (member m)⟩
  · exact least terms ⟨length, fun m hm => (covers m hm).trans (member m).symm⟩

theorem minimize_exact_least_majority :
    ∃ r, minimize .exact [7, 3, 5, 6, 3] 3 none .branchAndBound = .ok r ∧
      Implicant.sumCovers r.chosen 5 = true ∧ Implicant.sumCovers r.chosen 4 = false ∧
      Implicant.sumPrice r.chosen ≤
        Implicant.sumPrice (["11-", "1-1", "-11"].map fun s => ⟨.ofText s, [], false⟩) := by
  have range : ∀ m ∈ ([7, 3, 5, 6, 3] : List Int), 0 ≤ m ∧ m < 2 ^ 3 := by decide
  obtain ⟨r, answer, _, sums, _, least⟩ :=
    minimize_exact_least Solver.branchAndBound_optimal (by decide : 3 ≤ 6) range
  obtain ⟨_, covers⟩ := sums ⟨4, by decide, by decide⟩
  have outside : ¬Implicant.sumCovers r.chosen 4 = true :=
    fun inside => absurd ((covers 4 (by decide)).mp inside) (by decide)
  exact ⟨r, answer, (covers 5 (by decide)).mpr (by decide), by simpa using outside,
    least _ (by decide +kernel) (by decide +kernel)⟩

end Switching
