import Switching.Primes
import Switching.Proofs.OrderedSet
import Switching.Proofs.PrimePattern

/-! The rounds of joining find the prime implicants and nothing else. The round with so many
literals holds every cube of that size inside the on-set: two halves of a cube differ by one in
their number of ones, so neighbouring layers are enough to find the cube again in the next round. -/
namespace Switching

namespace Implicant

variable {width : Nat} {onSet : List Nat} {is : List Implicant} {i j k : Implicant} {p : Pattern}

theorem mem_patterns_firstOfEach :
    p ∈ (firstOfEach is).map (·.pattern) ↔ p ∈ is.map (·.pattern) := by
  induction is with
  | nil => rfl
  | cons i is ih =>
    simp only [firstOfEach, List.map_cons, List.mem_cons]
    by_cases h : p = i.pattern
    · simp [h]
    · simp only [h, false_or, ← ih, List.mem_map, List.mem_filter, agrees]
      constructor
      · rintro ⟨j, ⟨hj, _⟩, rfl⟩
        exact ⟨j, hj, rfl⟩
      · rintro ⟨j, hj, rfl⟩
        exact ⟨j, ⟨hj, by simpa using Ne.symm h⟩, rfl⟩

theorem nodup_patterns_firstOfEach (is : List Implicant) :
    ((firstOfEach is).map (·.pattern)).Nodup := by
  induction is with
  | nil => exact List.nodup_nil
  | cons i is ih =>
    rw [firstOfEach, List.map_cons, List.nodup_cons]
    constructor
    · intro h
      obtain ⟨j, hj, same⟩ := List.mem_map.mp h
      have other := (List.mem_filter.mp hj).2
      simp [agrees, same] at other
    · exact ih.sublist (List.filter_sublist.map _)

theorem firstOfEach_subset (is : List Implicant) : firstOfEach is ⊆ is := by
  induction is with
  | nil => exact List.Subset.refl _
  | cons i is ih =>
    rw [firstOfEach]
    exact List.cons_subset_cons i fun j hj => ih (List.mem_of_mem_filter hj)

theorem length_le_maxLength (h : i ∈ is) : i.pattern.length ≤ maxLength is := by
  induction is with
  | nil => cases h
  | cons j is ih =>
    simp only [maxLength, List.map_cons, List.foldr_cons]
    rcases List.mem_cons.mp h with rfl | h
    · exact Nat.le_max_left ..
    · exact Nat.le_trans (ih h) (Nat.le_max_right ..)

theorem merge?_eq_some_iff :
    i.merge? j = some k ↔ i.pattern.merge? j.pattern = some k.pattern ∧
      k.minterms = orderedSet (i.minterms ++ j.minterms) ∧ k.isPrime = false := by
  rw [merge?, Option.map_eq_some_iff]
  constructor
  · rintro ⟨p, hp, rfl⟩
    exact ⟨hp, rfl, rfl⟩
  · rintro ⟨hp, hm, hf⟩
    refine ⟨k.pattern, hp, ?_⟩
    cases k
    simp_all

theorem exists_of_mem_joins (h : k ∈ joins is) :
    ∃ i ∈ is, ∃ j ∈ is, i.merge? j = some k := by
  have made := firstOfEach_subset _ h
  simp only [joinsOfLayer, layer, List.mem_flatMap, List.mem_filterMap, List.mem_filter] at made
  obtain ⟨_, _, i, hi, j, hj, joined⟩ := made
  exact ⟨i, hi.1, j, hj.1, joined⟩

/-- A round misses nothing that two implicants join to: the half with the smaller number of ones is
in the layer below the other half. -/
theorem mem_patterns_joins {front back : Pattern} (hi : i ∈ is)
    (low : i.pattern = front ++ .ofBool false :: back) (hj : j ∈ is)
    (high : j.pattern = front ++ .ofBool true :: back) :
    front ++ .dash :: back ∈ (joins is).map (·.pattern) := by
  rw [joins, mem_patterns_firstOfEach, List.mem_map]
  have joined : i.merge? j = some ⟨front ++ .dash :: back,
      orderedSet (i.minterms ++ j.minterms), false⟩ := by
    refine merge?_eq_some_iff.mpr ⟨Pattern.merge?_eq_some_iff.mpr ?_, rfl, rfl⟩
    exact ⟨front, false, back, low, high, rfl⟩
  have step : j.pattern.ones = i.pattern.ones + 1 := by rw [low, high, Pattern.ones_half]
  have bound : i.pattern.ones < maxLength is := by
    have some : j.pattern.ones ≤ j.pattern.length := List.count_le_length
    have := length_le_maxLength hj
    omega
  refine ⟨⟨_, orderedSet (i.minterms ++ j.minterms), false⟩, ?_, rfl⟩
  simp only [joinsOfLayer, layer, List.mem_flatMap, List.mem_filterMap, List.mem_filter,
    List.mem_range]
  exact ⟨i.pattern.ones, bound, i, ⟨hi, by simp⟩, j, ⟨hj, by simp [step]⟩, joined⟩

/-- The round with so many literals: every cube of that size inside the on-set, each with the
minterms that it covers. -/
structure IsRound (width : Nat) (onSet : List Nat) (literals : Nat) (is : List Implicant) :
    Prop where
  patterns : ∀ p, p ∈ is.map (·.pattern) ↔
    p.length = width ∧ p.literals = literals ∧ p.Inside width onSet
  minterms : ∀ i ∈ is, i.minterms = i.pattern.minterms width

namespace IsRound

variable {literals : Nat}

theorem of_mem (h : IsRound width onSet literals is) (hi : i ∈ is) :
    i.pattern.length = width ∧ i.pattern.literals = literals ∧ i.pattern.Inside width onSet :=
  (h.patterns i.pattern).mp (List.mem_map_of_mem hi)

theorem exists_of_inside (h : IsRound width onSet literals is) (length : p.length = width)
    (size : p.literals = literals) (inside : p.Inside width onSet) :
    ∃ i ∈ is, i.pattern = p :=
  List.mem_map.mp ((h.patterns p).mpr ⟨length, size, inside⟩)

theorem exists_halves {front back : Pattern} (h : IsRound width onSet (literals + 1) is)
    (length : (front ++ .dash :: back).length = width)
    (size : (front ++ .dash :: back).literals = literals)
    (inside : (front ++ .dash :: back).Inside width onSet) (b : Bool) :
    ∃ i ∈ is, i.pattern = front ++ .ofBool b :: back := by
  refine h.exists_of_inside ?_ ?_ ((Pattern.inside_dash b length).mp inside).1
  · rw [← length]; simp
  · rw [Pattern.literals_half, size]

theorem patterns_joins (h : IsRound width onSet (literals + 1) is) (p : Pattern)
    (bound : literals + 1 ≤ width) :
    p ∈ (joins is).map (·.pattern) ↔
      p.length = width ∧ p.literals = literals ∧ p.Inside width onSet := by
  constructor
  · intro hp
    obtain ⟨k, hk, rfl⟩ := List.mem_map.mp hp
    obtain ⟨i, hi, j, hj, joined⟩ := exists_of_mem_joins hk
    obtain ⟨merged, _, _⟩ := merge?_eq_some_iff.mp joined
    obtain ⟨front, b, back, hb, hnb, hk⟩ := Pattern.merge?_eq_some_iff.mp merged
    obtain ⟨length, size, left⟩ := h.of_mem hi
    obtain ⟨_, _, right⟩ := h.of_mem hj
    have whole : (front ++ .dash :: back).length = width := by rw [← length, hb]; simp
    rw [hb, Pattern.literals_half] at size
    rw [hk]
    exact ⟨whole, by omega, (Pattern.inside_dash b whole).mpr ⟨hb ▸ left, hnb ▸ right⟩⟩
  · rintro ⟨length, size, inside⟩
    obtain ⟨front, back, rfl⟩ := Pattern.exists_dash (p := p) (by omega)
    obtain ⟨i, hi, low⟩ := h.exists_halves length size inside false
    obtain ⟨j, hj, high⟩ := h.exists_halves length size inside true
    exact mem_patterns_joins hi low hj high

theorem minterms_joins (h : IsRound width onSet (literals + 1) is) (hk : k ∈ joins is) :
    k.minterms = k.pattern.minterms width := by
  obtain ⟨i, hi, j, hj, joined⟩ := exists_of_mem_joins hk
  obtain ⟨merged, minterms, _⟩ := merge?_eq_some_iff.mp joined
  obtain ⟨front, b, back, hb, hnb, hk⟩ := Pattern.merge?_eq_some_iff.mp merged
  have whole : (front ++ .dash :: back).length = width := by
    rw [← (h.of_mem hi).1, hb]; simp
  rw [minterms, h.minterms i hi, h.minterms j hj, hb, hnb, hk]
  refine orderedSet_eq (Pattern.pairwise_minterms ..) fun m => ?_
  simp only [List.mem_append, Pattern.mem_minterms]
  constructor
  · rintro (⟨hm, hc⟩ | ⟨hm, hc⟩)
    · exact ⟨hm, (Pattern.covers_dash b (whole ▸ hm)).mpr (Or.inl hc)⟩
    · exact ⟨hm, (Pattern.covers_dash b (whole ▸ hm)).mpr (Or.inr hc)⟩
  · rintro ⟨hm, hc⟩
    exact ((Pattern.covers_dash b (whole ▸ hm)).mp hc).imp (⟨hm, ·⟩) (⟨hm, ·⟩)

theorem joins (h : IsRound width onSet (literals + 1) is) (bound : literals + 1 ≤ width) :
    IsRound width onSet literals (joins is) where
  patterns p := h.patterns_joins p bound
  minterms _ hk := h.minterms_joins hk

/-- What joins with nothing in its round is prime, and nothing else is. -/
theorem joinsWithin_iff (h : IsRound width onSet literals is) (hi : i ∈ is) :
    joinsWithin is i = true ↔ ¬ i.pattern.IsPrime width onSet := by
  obtain ⟨length, size, inside⟩ := h.of_mem hi
  simp only [joinsWithin, List.any_eq_true, Option.isSome_iff_exists]
  constructor
  · rintro ⟨j, hj, p, merged⟩ prime
    obtain ⟨front, b, back, hb, hnb, rfl⟩ := Pattern.merge?_eq_some_iff.mp merged
    have whole : (front ++ .dash :: back).length = width := by rw [← length, hb]; simp
    refine (Pattern.isPrime_iff.mp prime).2.2 front b back hb ?_
    exact (Pattern.inside_dash b whole).mpr ⟨hb ▸ inside, hnb ▸ (h.of_mem hj).2.2⟩
  · intro composite
    rw [Pattern.isPrime_iff] at composite
    push Not at composite
    obtain ⟨front, b, back, hb, larger⟩ := composite length inside
    have whole : (front ++ .dash :: back).length = width := by rw [← length, hb]; simp
    obtain ⟨j, hj, hnb⟩ : ∃ j ∈ is, j.pattern = front ++ .ofBool (!b) :: back := by
      refine h.exists_of_inside ?_ ?_ ((Pattern.inside_dash b whole).mp larger).2
      · rw [← whole]; simp
      · rw [← size, hb, Pattern.literals_half, Pattern.literals_half]
    exact ⟨j, hj, _, Pattern.merge?_eq_some_iff.mpr ⟨front, b, back, hb, hnb, rfl⟩⟩

theorem not_inside_of_nil (h : IsRound width onSet literals []) (bound : literals ≤ width)
    (length : p.length = width) (size : p.literals ≤ literals) : ¬ p.Inside width onSet := by
  intro inside
  obtain ⟨q, hq⟩ := Pattern.exists_inside length inside size bound
  exact absurd ((h.patterns q).mpr hq) (by simp)

theorem mem_patterns_left (h : IsRound width onSet literals is) :
    p ∈ (is.filter fun i => !joinsWithin is i).map (·.pattern) ↔
      p.IsPrime width onSet ∧ p.literals = literals := by
  simp only [List.mem_map, List.mem_filter, Bool.not_eq_true']
  constructor
  · rintro ⟨i, ⟨hi, alone⟩, rfl⟩
    refine ⟨?_, (h.of_mem hi).2.1⟩
    by_contra composite
    rw [(h.joinsWithin_iff hi).mpr composite] at alone
    cases alone
  · rintro ⟨prime, size⟩
    obtain ⟨i, hi, rfl⟩ := h.exists_of_inside prime.length size prime.inside
    refine ⟨i, ⟨hi, ?_⟩, rfl⟩
    by_contra joined
    exact (h.joinsWithin_iff hi).mp (by simpa using joined) prime

theorem left_eq_self (h : IsRound width onSet (literals + 1) is) (bound : literals + 1 ≤ width)
    (none : Implicant.joins is = []) : (is.filter fun i => !joinsWithin is i) = is := by
  refine List.filter_eq_self.mpr fun i hi => ?_
  by_contra joined
  have composite := (h.joinsWithin_iff hi).mp (by simpa using joined)
  rw [Pattern.isPrime_iff] at composite
  push Not at composite
  obtain ⟨length, size, inside⟩ := h.of_mem hi
  obtain ⟨front, b, back, hb, larger⟩ := composite length inside
  rw [hb, Pattern.literals_half] at size
  have whole : (front ++ .dash :: back).length = width := by rw [← length, hb]; simp
  exact (none ▸ h.joins bound).not_inside_of_nil (by omega) whole (by omega) larger

end IsRound

/-- From a round on, the rounds find the prime implicants with no more literals. -/
theorem mem_patterns_joinRounds {bound : Nat} (h : IsRound width onSet bound is)
    (hb : bound ≤ width) :
    p ∈ (joinRounds bound is).1.map (·.pattern) ↔ p.IsPrime width onSet ∧ p.literals ≤ bound := by
  induction bound generalizing is with
  | zero =>
    rw [joinRounds, h.patterns, Pattern.isPrime_iff]
    constructor
    · rintro ⟨length, size, inside⟩
      refine ⟨⟨length, inside, ?_⟩, by omega⟩
      rintro front b back rfl
      rw [Pattern.literals_half] at size
      omega
    · rintro ⟨⟨length, inside, _⟩, size⟩
      exact ⟨length, by omega, inside⟩
  | succ bound ih =>
    have next := h.joins hb
    rw [joinRounds]
    split
    · rename_i none
      rw [none] at next
      have left := h.mem_patterns_left (p := p)
      rw [h.left_eq_self hb none] at left
      rw [left]
      constructor
      · exact fun ⟨prime, size⟩ => ⟨prime, by omega⟩
      · rintro ⟨prime, size⟩
        refine ⟨prime, ?_⟩
        by_contra other
        exact next.not_inside_of_nil (by omega) prime.length (by omega) prime.inside
    · rw [List.map_append, List.mem_append, h.mem_patterns_left, ih next (by omega),
        ← and_or_left]
      exact and_congr_right fun _ => by omega

theorem minterms_joinRounds {bound : Nat} (h : IsRound width onSet bound is) (hb : bound ≤ width)
    (hi : i ∈ (joinRounds bound is).1) : i.minterms = i.pattern.minterms width := by
  induction bound generalizing is with
  | zero => exact h.minterms i hi
  | succ bound ih =>
    rw [joinRounds] at hi
    split at hi
    · exact h.minterms i hi
    · rcases List.mem_append.mp hi with hi | hi
      · exact h.minterms i (List.mem_of_mem_filter hi)
      · exact ih (h.joins hb) (by omega) hi

end Implicant

end Switching
