import Mathlib.Tactic.Positivity
import Mathlib.Tactic.Ring
import Switching.Proofs.Lookup

/-! The assignments over a list of names and their numbers. Of an integer only the remainder by the
power of two shows in the assignment that is made from it, as a negative number goes on with ones.
Over names without repetition this remainder is the number of the assignment, and the list of all
assignments has each of them at its number and nowhere else. -/
namespace Switching

namespace Assignment

variable {names : List String} {a b : Assignment}

/-- Below a width the bits do not depend on what is added from the width on. -/
theorem bitAt_add_mul (n t : Int) {k width : Nat} (below : k < width) :
    bitAt (n + 2 ^ width * t) k = bitAt n k := by
  obtain ⟨rest, rfl⟩ := Nat.exists_eq_add_of_lt below
  have even : n + 2 ^ (k + rest + 1) * t = n + 2 ^ k * (2 * (2 ^ rest * t)) := by ring
  have shift : ∀ m : Int, m >>> k = m / 2 ^ k := by
    intro m
    rw [Int.shiftRight_eq_div_pow]
    norm_cast
  rw [bitAt, bitAt, even, shift, shift, Int.add_mul_ediv_left _ _ (by positivity),
    Int.add_mul_emod_self_left]

theorem bitAt_emod (n : Int) {k width : Nat} (below : k < width) :
    bitAt (n % 2 ^ width) k = bitAt n k := by
  rw [← bitAt_add_mul (n % 2 ^ width) (n / 2 ^ width) below, Int.emod_add_mul_ediv]

theorem numberEntries_emod (n : Int) {width : Nat} (fits : names.length ≤ width) :
    numberEntries (n % 2 ^ width) names = numberEntries n names := by
  induction names with
  | nil => rfl
  | cons name names ih =>
    rw [numberEntries, numberEntries, bitAt_emod n fits, ih (Nat.le_of_succ_le fits)]

theorem ofNumber_emod (n : Int) (names : List String) :
    ofNumber (n % 2 ^ names.length) names = ofNumber n names :=
  congrArg ofList (numberEntries_emod n (Nat.le_refl _))

theorem isSome_value?_ofNumber (n : Int) (names : List String) (x : String) :
    ((ofNumber n names).value? x).isSome ↔ x ∈ names := by
  rw [Option.isSome_iff_ne_none, Ne, value?_ofNumber_eq_none_iff, Decidable.not_not]

theorem defines_ofNumber (n : Int) (names : List String) : (ofNumber n names).Defines names :=
  fun x hx => (isSome_value?_ofNumber n names x).mpr hx

theorem number_ofNumber (nodup : names.Nodup) {m : Nat} (hm : m < 2 ^ names.length) :
    (ofNumber m names).number names = .ok m := by
  obtain ⟨v, rfl⟩ := exists_numberOf nodup hm
  rw [number_eq (defines_ofNumber _ names)]
  have same : ∀ x ∈ names,
      ((ofNumber (numberOf (names.map v)) names).value? x).getD false = v x := by
    intro x hx
    rw [value?_ofNumber_numberOf hx, Option.getD_some]
  rw [List.map_congr_left same]

theorem exists_remainder (nodup : names.Nodup) (n : Int) :
    ∃ k, (ofNumber n names).number names = .ok k ∧ (k : Int) = n % 2 ^ names.length := by
  have positive : (0 : Int) < 2 ^ names.length := Int.pow_pos (by decide)
  obtain ⟨k, remainder⟩ := Int.eq_ofNat_of_zero_le (Int.emod_nonneg n (Int.ne_of_gt positive))
  have below : k < 2 ^ names.length := by
    have bound := Int.emod_lt_of_pos n positive
    rw [remainder] at bound
    exact_mod_cast bound
  refine ⟨k, ?_, remainder.symm⟩
  rw [← ofNumber_emod, remainder]
  exact number_ofNumber nodup below

theorem exists_number (defined : a.Defines names) :
    ∃ k, a.number names = .ok k ∧ k < 2 ^ names.length ∧
      ∀ x ∈ names, (ofNumber k names).value? x = a.value? x := by
  refine ⟨_, number_eq defined, ?_, fun x hx => ?_⟩
  · simpa using numberOf_lt (names.map fun x => (a.value? x).getD false)
  · rw [value?_ofNumber_numberOf hx, defined.value?_eq x hx, Option.getD_some]

theorem number_congr (defined : a.Defines names)
    (same : ∀ x ∈ names, b.value? x = a.value? x) : b.number names = a.number names := by
  have defined' : b.Defines names := fun x hx => same x hx ▸ defined x hx
  rw [number_eq defined, number_eq defined']
  have values : ∀ x ∈ names, (b.value? x).getD false = (a.value? x).getD false :=
    fun x hx => congrArg (Option.getD · false) (same x hx)
  rw [List.map_congr_left values]

theorem getElem?_all_eq_some {i : Nat} :
    (all names)[i]? = some b ↔ i < 2 ^ names.length ∧ ofNumber i names = b := by
  have count : powerOfTwo names.length = 2 ^ names.length := rfl
  rw [all, List.getElem?_map, Option.map_eq_some_iff, count]
  constructor
  · rintro ⟨k, entry, made⟩
    obtain ⟨below, same⟩ := List.getElem?_eq_some_iff.mp entry
    rw [List.getElem_range] at same
    exact ⟨by simpa using below, same ▸ made⟩
  · rintro ⟨below, made⟩
    exact ⟨i, List.getElem?_range below, made⟩

theorem existsUnique_place (nodup : names.Nodup) (defined : a.Defines names) :
    ∃! i : Nat, ∃ b, (all names)[i]? = some b ∧ ∀ x ∈ names, b.value? x = a.value? x := by
  obtain ⟨k, number, below, values⟩ := exists_number defined
  refine ⟨k, ⟨_, getElem?_all_eq_some.mpr ⟨below, rfl⟩, values⟩, ?_⟩
  rintro i ⟨b, entry, same⟩
  obtain ⟨within, rfl⟩ := getElem?_all_eq_some.mp entry
  have place := number_ofNumber nodup within
  rw [number_congr defined same, number] at place
  exact (Except.ok.inj place).symm

/-- An assignment that is made from an integer has the remainder of the integer as its number, an
assignment of the names is made from its number, and the list of all assignments has each one of the
names once, at its number. -/
theorem number_bijective (nodup : names.Nodup) :
    (∀ n : Int, ∃ k, (ofNumber n names).number names = .ok k ∧ (k : Int) = n % 2 ^ names.length) ∧
    (∀ a : Assignment, a.Defines names →
      ∃ k l, a.number names = .ok k ∧ a.mirrorNumber names = .ok l ∧ k < 2 ^ names.length ∧
        k + l = 2 ^ names.length - 1 ∧ ∀ x ∈ names, (ofNumber k names).value? x = a.value? x) ∧
    (all names).length = 2 ^ names.length ∧
    (∀ (i : Nat) b, (all names)[i]? = some b →
      b.number names = .ok i ∧ ∀ x, (b.value? x).isSome ↔ x ∈ names) ∧
    ∀ a : Assignment, a.Defines names →
      ∃! i : Nat, ∃ b, (all names)[i]? = some b ∧ ∀ x ∈ names, b.value? x = a.value? x := by
  refine ⟨exists_remainder nodup, fun a defined => ?_, by simp [all, powerOfTwo],
    fun i b entry => ?_, fun a defined => existsUnique_place nodup defined⟩
  · obtain ⟨k, number, below, values⟩ := exists_number defined
    refine ⟨k, 2 ^ names.length - 1 - k, number, ?_, below, by omega, values⟩
    simp only [mirrorNumber, number]
    rfl
  · obtain ⟨below, rfl⟩ := getElem?_all_eq_some.mp entry
    exact ⟨number_ofNumber nodup below, isSome_value?_ofNumber i names⟩

theorem number_bijective_negative :
    let names := ["A", "B", "C"]
    let a : Assignment := .ofList [("C", false), ("D", true), ("A", true), ("B", true)]
    names.Nodup ∧ a.Defines names ∧
    (∃ k, (ofNumber (-3) names).number names = .ok k ∧ (k : Int) = 5) ∧
    (∃ l, a.mirrorNumber names = .ok l ∧ 6 + l = 7) ∧
    ∃! i : Nat, ∃ b, (all names)[i]? = some b ∧ ∀ x ∈ names, b.value? x = a.value? x := by
  intro names a
  have nodup : names.Nodup := by decide
  have defined : a.Defines names := by decide
  obtain ⟨remainders, numbers, _, _, once⟩ := number_bijective nodup
  obtain ⟨k, l, number, mirror, _, sum, _⟩ := numbers a defined
  have six : a.number names = .ok 6 := by decide
  cases number.symm.trans six
  exact ⟨nodup, defined, remainders (-3), ⟨l, mirror, sum⟩, once a defined⟩

end Assignment

end Switching
