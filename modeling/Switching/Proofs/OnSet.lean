import Mathlib.Algebra.Group.Int.Defs
import Switching.Minimization
import Switching.Proofs.Cover.Exact
import Switching.Proofs.OrderedSet
import Switching.Proofs.Primes

/-! Minimizing the function that is 1 on a set of minterms: the constant functions apart, what is
chosen are prime implicants that together cover exactly the set. -/
namespace Switching

variable {width : Nat} {onSet : List Nat} {m : Nat}

structure IsOnSet (width : Nat) (onSet : List Nat) : Prop where
  ascending : onSet.Pairwise (· < ·)
  bound : ∀ m ∈ onSet, m < 2 ^ width

namespace IsOnSet

theorem length_eq_iff (h : IsOnSet width onSet) :
    onSet.length = powerOfTwo width ↔ ∀ m < 2 ^ width, m ∈ onSet := by
  have sub : onSet ⊆ List.range (2 ^ width) := fun m hm => List.mem_range.mpr (h.bound m hm)
  have nodup : onSet.Nodup := h.ascending.imp fun below => Nat.ne_of_lt below
  constructor
  · intro full m hm
    have same := (List.subperm_of_subset nodup sub).perm_of_length_le
      (by rw [List.length_range, full]; exact Nat.le_refl _)
    exact same.mem_iff.mpr (List.mem_range.mpr hm)
  · intro all
    have range := (List.subperm_of_subset (List.nodup_range (n := 2 ^ width))
      fun m hm => all m (List.mem_range.mp hm)).length_le
    have whole := (List.subperm_of_subset nodup sub).length_le
    rw [List.length_range] at range whole
    exact Nat.le_antisymm whole range

theorem exists_missing (h : IsOnSet width onSet) (part : onSet.length ≠ powerOfTwo width) :
    ∃ m < 2 ^ width, m ∉ onSet := by
  rw [Ne, h.length_eq_iff] at part
  push Not at part
  exact part

theorem covered (h : IsOnSet width onSet) (hm : m ∈ onSet) :
    (Implicant.primes onSet width).any (·.covers m) = true := by
  have bound := h.bound m hm
  have length : (Implicant.ofMinterm width m).pattern.length = width := by
    simp [Implicant.pattern_ofMinterm bound]
  have inside : Pattern.Inside width onSet (Implicant.ofMinterm width m).pattern :=
    fun k hk hc => (Implicant.covers_ofMinterm bound hk).mp hc ▸ hm
  obtain ⟨prime, hprime, _, covers⟩ := Pattern.exists_prime length inside
  obtain ⟨i, hi, rfl⟩ := List.mem_map.mp ((Implicant.mem_patterns_primes h.bound).mpr hprime)
  refine List.any_eq_true.mpr ⟨i, hi, covers m bound ?_⟩
  exact (Implicant.covers_ofMinterm bound bound).mpr rfl

theorem isPrime_of_mem (h : IsOnSet width onSet) {i : Implicant}
    (hi : i ∈ Implicant.primes onSet width) : i.pattern.IsPrime width onSet :=
  (Implicant.mem_patterns_primes h.bound).mp (List.mem_map_of_mem hi)

theorem built (h : IsOnSet width onSet) : Cover.Built (Implicant.primes onSet width) onSet := by
  intro i hi m hm
  rw [(Implicant.of_mem_primes h.bound hi).2, Pattern.mem_minterms]
  exact and_iff_right (h.bound m hm)

end IsOnSet

namespace Minimization

structure IsCover (width : Nat) (onSet : List Nat) (chosen : List Implicant) : Prop where
  prime : ∀ i ∈ chosen, i.pattern.IsPrime width onSet
  covers : ∀ m ∈ onSet, Implicant.sumCovers chosen m = true

theorem IsCover.sumCovers_iff {chosen : List Implicant} (h : IsCover width onSet chosen)
    (hm : m < 2 ^ width) : Implicant.sumCovers chosen m = true ↔ m ∈ onSet := by
  constructor
  · intro covers
    obtain ⟨i, hi, covers⟩ := List.any_eq_true.mp covers
    exact (h.prime i hi).inside m hm covers
  · exact h.covers m

theorem IsCover.chosen_ne_nil {chosen : List Implicant} (h : IsCover width onSet chosen)
    (some : onSet ≠ []) : chosen ≠ [] := by
  rintro rfl
  obtain ⟨m, ms, rfl⟩ := List.exists_cons_of_ne_nil some
  cases h.covers m (List.mem_cons_self ..)

/-- Either method covers the whole set by prime implicants; the exact one is given a sound
solver. -/
theorem cover_isCover {solve : Solver} {method : Method} (sound : method = .exact → solve.Sound)
    (h : IsOnSet width onSet) :
    ∃ c, cover method (Implicant.primes onSet width) onSet solve = .ok c ∧
      IsCover width onSet c.chosen ∧ c.uncovered = [] := by
  cases method with
  | greedy =>
    refine ⟨_, rfl, ⟨fun i hi => h.isPrime_of_mem (Cover.greedy_chosen_subset _ _ hi),
      fun m hm => Cover.greedy_covers h.built hm (h.covered hm)⟩, ?_⟩
    rw [Cover.greedy_uncovered h.built]
    exact List.filter_eq_nil_iff.mpr fun m hm => by simp [h.covered hm]
  | exact =>
    obtain ⟨chosen, answer, sub, covers⟩ := Cover.exact_covers (sound rfl) fun m hm => h.covered hm
    refine ⟨⟨chosen, _⟩, by simp only [cover, answer]; rfl,
      ⟨fun i hi => h.isPrime_of_mem (sub.subset hi), covers⟩, ?_⟩
    exact List.filter_eq_nil_iff.mpr fun m hm => by simp [covers m hm]

section Answers

variable {solve : Solver} {method : Method} {primes : List Implicant} {c : Cover}

theorem exact_of_cover (answer : cover .exact primes onSet solve = .ok c) :
    Cover.exact primes onSet solve = .ok c.chosen := by
  unfold cover at answer
  cases found : Cover.exact primes onSet solve with
  | error cause =>
    simp only [found] at answer
    cases answer
  | ok chosen =>
    simp only [found] at answer
    cases answer
    rfl

theorem cover_subset (answer : cover method primes onSet solve = .ok c) : c.chosen ⊆ primes := by
  cases method with
  | greedy =>
    cases answer
    exact Cover.greedy_chosen_subset primes onSet
  | exact =>
    obtain ⟨places, picked⟩ := Cover.eq_picked_of_exact (exact_of_cover answer)
    exact picked ▸ (Cover.picked_sublist primes places).subset

theorem nodup_cover (once : (primes.map (·.pattern)).Nodup)
    (answer : cover method primes onSet solve = .ok c) : (c.chosen.map (·.pattern)).Nodup := by
  cases method with
  | greedy =>
    cases answer
    exact Cover.nodup_greedy_chosen once onSet
  | exact =>
    exact Cover.nodup_exact once (exact_of_cover answer)

end Answers

/-- What a minimization of a set of minterms is: one of the two constants, or a sum of prime
implicants that covers the set. -/
inductive Minimizes (names : List String) (onSet : List Nat) (r : Minimization) : Prop
  | never (empty : onSet = []) (none : r.chosen = []) (text : r.expression = "0")
  | always (full : ∀ m < 2 ^ names.length, m ∈ onSet) (none : r.chosen = [])
      (text : r.expression = "1")
  | sum (some : onSet ≠ []) (proper : ∃ m < 2 ^ names.length, m ∉ onSet)
      (cover : IsCover names.length onSet r.chosen)
      (text : r.expression = Implicant.sumText r.chosen names)

theorem ofOnSet_minimizes {solve : Solver} {method : Method} (sound : method = .exact → solve.Sound)
    (names : List String) (h : IsOnSet names.length onSet) :
    ∃ r, ofOnSet method names onSet solve = .ok r ∧ r.names = names ∧ r.uncovered = [] ∧
      Minimizes names onSet r := by
  by_cases empty : onSet = []
  · exact ⟨_, if_pos empty, rfl, rfl, .never empty rfl rfl⟩
  by_cases full : onSet.length = powerOfTwo names.length
  · refine ⟨_, by rw [ofOnSet, if_neg empty, if_pos full], rfl, rfl, ?_⟩
    exact .always (h.length_eq_iff.mp full) rfl rfl
  · obtain ⟨c, answer, isCover, uncovered⟩ := cover_isCover sound h
    refine ⟨_, by rw [ofOnSet, if_neg empty, if_neg full]; simp only [answer]; rfl, rfl,
      uncovered, ?_⟩
    exact .sum empty (h.exists_missing full) isCover rfl

theorem of_ofOnSet {solve : Solver} {method : Method} {names : List String} {r : Minimization}
    (answer : ofOnSet method names onSet solve = .ok r) :
    (∃ b, r = ofConstant method names onSet b) ∨
      onSet.length ≠ powerOfTwo names.length ∧ ∃ c,
        cover method (Implicant.primes onSet names.length) onSet solve = .ok c ∧
          r.names = names ∧ r.chosen = c.chosen ∧
          r.expression = Implicant.sumText c.chosen names := by
  unfold ofOnSet at answer
  split at answer
  · exact .inl ⟨false, (Except.ok.inj answer).symm⟩
  · split at answer
    · exact .inl ⟨true, (Except.ok.inj answer).symm⟩
    · rename_i proper
      simp only at answer
      split at answer
      · cases answer
      · rename_i c found
        cases answer
        exact .inr ⟨proper, c, found, rfl, rfl, rfl⟩

theorem nodup_of_ofOnSet {solve : Solver} {method : Method} {names : List String}
    {r : Minimization} (answer : ofOnSet method names onSet solve = .ok r) :
    (r.chosen.map (·.pattern)).Nodup := by
  obtain ⟨b, rfl⟩ | ⟨_, c, found, _, chosen, _⟩ := of_ofOnSet answer
  · exact List.nodup_nil
  · exact chosen ▸ nodup_cover (Implicant.nodup_patterns_primes onSet names.length) found

def onSetOf (minterms : List Int) : List Nat := (orderedSet minterms).map Int.toNat

variable {minterms : List Int}

theorem mem_onSetOf (h : ∀ m ∈ minterms, 0 ≤ m) : m ∈ onSetOf minterms ↔ (m : Int) ∈ minterms := by
  rw [onSetOf, List.mem_map]
  constructor
  · rintro ⟨k, hk, rfl⟩
    have member := mem_orderedSet.mp hk
    rwa [Int.toNat_of_nonneg (h k member)]
  · intro hm
    exact ⟨m, mem_orderedSet.mpr hm, Int.toNat_natCast m⟩

theorem isOnSet_onSetOf (h : ∀ m ∈ minterms, 0 ≤ m ∧ m < 2 ^ width) :
    IsOnSet width (onSetOf minterms) where
  ascending := by
    rw [onSetOf, List.pairwise_map]
    refine (pairwise_orderedSet minterms).imp_of_mem fun hk hl below => ?_
    have nonneg := (h _ (mem_orderedSet.mp hk)).1
    omega
  bound m hm := by
    have member := (mem_onSetOf fun k hk => (h k hk).1).mp hm
    exact_mod_cast (h _ member).2

theorem range_ofNat (h : IsOnSet width onSet) :
    ∀ m ∈ onSet.map Int.ofNat, 0 ≤ m ∧ m < 2 ^ width := by
  intro m hm
  obtain ⟨k, hk, rfl⟩ := List.mem_map.mp hm
  refine ⟨Int.natCast_nonneg k, ?_⟩
  rw [Int.ofNat_eq_natCast]
  exact_mod_cast h.bound k hk

theorem onSetOf_ofNat (h : IsOnSet width onSet) : onSetOf (onSet.map Int.ofNat) = onSet := by
  have range := range_ofNat h
  refine (isOnSet_onSetOf range).ascending.eq_of_mem_iff h.ascending fun m => ?_
  rw [mem_onSetOf fun k hk => (range k hk).1, List.mem_map]
  constructor
  · rintro ⟨k, hk, same⟩
    exact Int.ofNat.inj same ▸ hk
  · exact fun hm => ⟨m, hm, rfl⟩

theorem minimize_eq_ofOnSet (method : Method) {names : List String} (limit : names.length ≤ 6)
    (h : ∀ m ∈ minterms, 0 ≤ m ∧ m < 2 ^ names.length) (solve : Solver) :
    minimize method minterms names.length (some names) solve =
      ofOnSet method names (onSetOf minterms) solve := by
  have inRange : (orderedSet minterms).find?
      (fun m => m < 0 || Int.ofNat (powerOfTwo names.length) ≤ m) = none := by
    refine List.find?_eq_none.mpr fun m hm => ?_
    obtain ⟨nonneg, below⟩ := h m (mem_orderedSet.mp hm)
    have power : ((powerOfTwo names.length : Nat) : Int) = 2 ^ names.length := by
      simp [powerOfTwo]
    simp [power, nonneg, below]
  have few : ¬ Activity.minimization.limit < (names.length : Int) := by
    simp only [Activity.limit]
    omega
  simp only [minimize, if_neg few, Option.getD_some, inRange]
  simp [onSetOf]

theorem of_minimize {method : Method} {width : Int} {names? : Option (List String)}
    {solve : Solver} {r : Minimization}
    (answer : minimize method minterms width names? solve = .ok r) :
    ∃ names, names?.getD (defaultNames width.toNat) = names ∧ (names.length : Int) = width ∧
      width ≤ 6 ∧ (∀ m ∈ minterms, 0 ≤ m ∧ m < 2 ^ names.length) ∧
      ofOnSet method names (onSetOf minterms) solve = .ok r := by
  unfold minimize at answer
  split at answer
  · cases answer
  · rename_i few
    generalize given : names?.getD (defaultNames width.toNat) = names at answer
    simp only at answer
    split at answer
    · cases answer
    · rename_i length
      split at answer
      · cases answer
      · rename_i inRange
        refine ⟨names, rfl, Decidable.of_not_not length, Int.not_lt.mp few, fun m hm => ?_, answer⟩
        have power : ((powerOfTwo names.length : Nat) : Int) = 2 ^ names.length := by
          simp [powerOfTwo]
        simpa [power] using List.find?_eq_none.mp inRange m (mem_orderedSet.mpr hm)

end Minimization

end Switching
