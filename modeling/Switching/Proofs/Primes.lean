import Switching.Proofs.Joining

/-! The prime implicants of a set of minterms, from the first round to the list that is returned:
exactly the prime patterns, once each, with the minterms that they cover. -/
namespace Switching

namespace Implicant

variable {width : Nat} {onSet : List Nat} {p : Pattern} {m : Nat}

theorem pattern_ofMinterm (h : m < 2 ^ width) :
    (ofMinterm width m).pattern = (lastDigits width m).map Trit.ofBool := by
  rw [ofMinterm, binaryField_eq_lastDigits h]

theorem covers_ofMinterm {k : Nat} (hm : m < 2 ^ width) (hk : k < 2 ^ width) :
    (ofMinterm width m).pattern.covers k = true ↔ k = m := by
  have length : ((lastDigits width m).map Trit.ofBool).length = width := by simp
  rw [pattern_ofMinterm hm, Pattern.covers_iff_admits (length.symm ▸ hk), length,
    Pattern.admits_ofBools]
  constructor
  · intro same
    rw [← numberOf_lastDigits_of_lt hk, same, numberOf_lastDigits_of_lt hm]
  · rintro rfl
    rfl

theorem initial_isRound (h : ∀ m ∈ onSet, m < 2 ^ width) :
    IsRound width onSet width (initial onSet width) where
  patterns p := by
    simp only [initial, List.map_map, List.mem_map, Function.comp_apply]
    constructor
    · rintro ⟨m, hm, rfl⟩
      have size : (ofMinterm width m).pattern.literals = width := by
        rw [pattern_ofMinterm (h m hm), Pattern.literals_ofBools, length_lastDigits]
      refine ⟨by simp [pattern_ofMinterm (h m hm)], size, fun k hk hc => ?_⟩
      exact (covers_ofMinterm (h m hm) hk).mp hc ▸ hm
    · rintro ⟨length, size, inside⟩
      obtain ⟨bs, rfl⟩ := Pattern.exists_ofBools (size.trans length.symm)
      have hbs : bs.length = width := by simpa using length
      have bound : numberOf bs < 2 ^ width := hbs ▸ numberOf_lt bs
      refine ⟨numberOf bs, inside _ bound ?_, ?_⟩
      · exact (Pattern.covers_numberOf (by simp)).mpr (Pattern.admits_ofBools.mpr rfl)
      · rw [pattern_ofMinterm bound, ← hbs, lastDigits_numberOf]
  minterms i hi := by
    obtain ⟨m, hm, rfl⟩ := List.mem_map.mp hi
    have ascending := Pattern.pairwise_minterms width (ofMinterm width m).pattern
    refine (List.pairwise_singleton (· < ·) m).eq_of_mem_iff ascending fun k => ?_
    rw [List.mem_singleton, Pattern.mem_minterms]
    constructor
    · rintro rfl
      exact ⟨h k hm, (covers_ofMinterm (h k hm) (h k hm)).mpr rfl⟩
    · rintro ⟨hk, hc⟩
      exact (covers_ofMinterm (h m hm) hk).mp hc

theorem maxLength_initial (h : ∀ m ∈ onSet, m < 2 ^ width) (some : onSet ≠ []) :
    maxLength (initial onSet width) = width := by
  induction onSet with
  | nil => exact absurd rfl some
  | cons m ms ih =>
    have head : (ofMinterm width m).pattern.length = width := by
      simp [pattern_ofMinterm (h m (List.mem_cons_self ..))]
    have step : maxLength (initial (m :: ms) width) =
        max (ofMinterm width m).pattern.length (maxLength (initial ms width)) := rfl
    rw [step, head]
    by_cases last : ms = []
    · subst last
      exact Nat.max_eq_left (Nat.zero_le _)
    · rw [ih (fun x hx => h x (List.mem_cons_of_mem _ hx)) last, Nat.max_self]

theorem patterns_primes (onSet : List Nat) (width : Nat) :
    (primes onSet width).map (·.pattern) = (firstOfEach
      (joinRounds (maxLength (initial onSet width)) (initial onSet width)).1).map (·.pattern) := by
  simp [primes, Function.comp_def]

theorem nodup_patterns_primes (onSet : List Nat) (width : Nat) :
    ((primes onSet width).map (·.pattern)).Nodup := by
  rw [patterns_primes]
  exact nodup_patterns_firstOfEach _

theorem mem_patterns_primes (h : ∀ m ∈ onSet, m < 2 ^ width) :
    p ∈ (primes onSet width).map (·.pattern) ↔ p.IsPrime width onSet := by
  rw [patterns_primes, mem_patterns_firstOfEach]
  by_cases some : onSet = []
  · subst some
    constructor
    · intro hp; cases hp
    · intro prime
      obtain ⟨m, hm, hc⟩ := p.exists_covers
      exact absurd (prime.inside m (prime.length ▸ hm) hc) (by simp)
  · rw [maxLength_initial h some, mem_patterns_joinRounds (initial_isRound h) (Nat.le_refl _)]
    constructor
    · exact fun ⟨prime, _⟩ => prime
    · exact fun prime => ⟨prime, prime.length ▸ p.literals_le_length⟩

theorem of_mem_primes {i : Implicant} (h : ∀ m ∈ onSet, m < 2 ^ width)
    (hi : i ∈ primes onSet width) :
    i.isPrime = true ∧ i.minterms = i.pattern.minterms width := by
  obtain ⟨j, hj, rfl⟩ := List.mem_map.mp hi
  have found := firstOfEach_subset _ hj
  refine ⟨rfl, ?_⟩
  by_cases some : onSet = []
  · subst some
    cases found
  · rw [maxLength_initial h some] at found
    exact minterms_joinRounds (i := j) (initial_isRound h) (Nat.le_refl _) found

/-- The implicants found are exactly the prime ones, whatever the order and the repetitions of the
minterms: no pattern is missing, spurious or repeated. -/
theorem primes_exact (width : Nat) (onSet : List Nat) (h : ∀ m ∈ onSet, m < 2 ^ width) :
    ((primes onSet width).map (·.pattern)).Nodup ∧
    (∀ p, p ∈ (primes onSet width).map (·.pattern) ↔ p.IsPrime width onSet) ∧
    (∀ i ∈ primes onSet width, i.isPrime = true ∧ i.minterms.Pairwise (· < ·) ∧
      ∀ m, m ∈ i.minterms ↔ m < 2 ^ width ∧ i.covers m = true) := by
  refine ⟨nodup_patterns_primes onSet width, fun p => mem_patterns_primes h, fun i hi => ?_⟩
  obtain ⟨prime, minterms⟩ := of_mem_primes h hi
  rw [minterms]
  exact ⟨prime, Pattern.pairwise_minterms .., fun m => Pattern.mem_minterms⟩

theorem primes_exact_majority : (∀ m ∈ [7, 3, 5, 6, 3], m < 2 ^ 3) ∧
    ((primes [7, 3, 5, 6, 3] 3).map (·.pattern)).Nodup ∧
    Pattern.IsPrime 3 [7, 3, 5, 6, 3] [.one, .one, .dash] := by
  have range : ∀ m ∈ [7, 3, 5, 6, 3], m < 2 ^ 3 := by decide
  obtain ⟨nodup, exact, _⟩ := primes_exact 3 [7, 3, 5, 6, 3] range
  exact ⟨range, nodup, (exact _).mp (by decide +kernel)⟩

end Implicant

end Switching
