import Mathlib.Data.Nat.Bitwise
import Switching.Karnaugh.Gray
import Switching.Proofs.Digits

/-! Gray codes of one width as a cycle. To count one further turns over the last digits of a number,
up to the first zero from the right. A digit of the code tells whether two neighbouring digits of the
number differ, and only at the end of this run does that change; behind the last position the run
ends with the field. -/
namespace Switching

theorem testBit_grayNumber (p k : Nat) :
    (grayNumber p).testBit k = (p.testBit k ^^ p.testBit (k + 1)) := by
  rw [show grayNumber p = p ^^^ (p >>> 1) from rfl, Nat.testBit_xor, Nat.testBit_shiftRight,
    Nat.add_comm]

theorem grayNumber_lt {width p : Nat} (h : p < 2 ^ width) : grayNumber p < 2 ^ width :=
  Nat.xor_lt_two_pow h (Nat.lt_of_le_of_lt (Nat.shiftRight_le p 1) h)

theorem grayNumber_inj {p q : Nat} (same : grayNumber p = grayNumber q) : p = q := by
  -- the digits in which the two differ are shifted onto themselves
  have shifted : p ^^^ q = (p ^^^ q) >>> 1 := by
    apply Nat.eq_of_testBit_eq
    intro i
    have digit : (p.testBit i ^^ p.testBit (i + 1)) = (q.testBit i ^^ q.testBit (i + 1)) := by
      rw [← testBit_grayNumber, ← testBit_grayNumber, same]
    rw [Nat.testBit_shiftRight, Nat.testBit_xor, Nat.testBit_xor, Nat.add_comm]
    revert digit
    cases p.testBit i <;> cases q.testBit i <;> simp +contextual
  rw [Nat.shiftRight_eq_div_pow] at shifted
  exact Nat.xor_eq_zero_iff.mp (by omega)

theorem exists_carry (p : Nat) : ∃ k, ∀ j, (p + 1).testBit j = (p.testBit j ^^ decide (j ≤ k)) := by
  induction p using Nat.strongRecOn with
  | ind p ih =>
    rcases Nat.even_or_odd' p with ⟨q, rfl | rfl⟩
    · refine ⟨0, fun j => ?_⟩
      cases j with
      | zero => simp [Nat.testBit_zero]
      | succ j =>
        have half : (2 * q + 1) / 2 = 2 * q / 2 := by omega
        simp [Nat.testBit_succ, half]
    · obtain ⟨k, turned⟩ := ih q (by omega)
      refine ⟨k + 1, fun j => ?_⟩
      cases j with
      | zero => simp [Nat.testBit_zero]; omega
      | succ j =>
        have next : (2 * q + 1 + 1) / 2 = q + 1 := by omega
        have half : (2 * q + 1) / 2 = q := by omega
        rw [Nat.testBit_succ, Nat.testBit_succ, next, half, turned]
        simp

theorem exists_carry_within {width p : Nat} (positive : 0 < width) (within : p < 2 ^ width) :
    ∃ k < width, ∀ j,
      ((p + 1) % 2 ^ width).testBit j = (p.testBit j ^^ decide (j ≤ k)) := by
  obtain ⟨k, turned⟩ := exists_carry p
  refine ⟨min k (width - 1), by omega, fun j => ?_⟩
  rw [Nat.testBit_mod_two_pow, turned]
  by_cases inside : j < width
  · have run : j ≤ min k (width - 1) ↔ j ≤ k := by omega
    simp [inside, run]
  · have beyond : p.testBit j = false :=
      Nat.testBit_lt_two_pow (Nat.lt_of_lt_of_le within (Nat.pow_le_pow_right (by decide) (by omega)))
    have run : ¬j ≤ min k (width - 1) := by omega
    simp [inside, beyond, run]

theorem exists_turned {width p : Nat} (positive : 0 < width) (within : p < 2 ^ width) :
    ∃ k < width, ∀ j,
      (grayNumber ((p + 1) % 2 ^ width : Nat)).testBit j =
        ((grayNumber p).testBit j ^^ decide (j = k)) := by
  obtain ⟨k, inside, turned⟩ := exists_carry_within positive within
  refine ⟨k, inside, fun j => ?_⟩
  have ends : decide (j = k) = (decide (j ≤ k) ^^ decide (j + 1 ≤ k)) := by
    rcases Nat.lt_trichotomy j k with before | rfl | behind
    · simp [Nat.ne_of_lt before, Nat.le_of_lt before, Nat.succ_le_of_lt before]
    · simp
    · have past : ¬j ≤ k := by omega
      have past' : ¬j + 1 ≤ k := by omega
      simp [Nat.ne_of_gt behind, past, past']
  simp only [testBit_grayNumber, turned, ends, Bool.xor_assoc]
  rw [Bool.xor_left_comm (decide (j ≤ k))]

theorem grayCode_eq_lastDigits {width p : Nat} (h : p < 2 ^ width) :
    grayCode width p = lastDigits width (grayNumber p) :=
  binaryField_eq_lastDigits (grayNumber_lt h)

/-- The Gray codes of the positions in a field are texts of its width, no two of them alike, and
each of them differs from the next in one character; behind the last one stands the first. -/
theorem grayCode_cyclic {width : Nat} (positive : 0 < width) :
    (∀ p < 2 ^ width, (digitsText (grayCode width (p : Nat))).length = width) ∧
    (∀ p < 2 ^ width, ∀ q < 2 ^ width,
      digitsText (grayCode width (p : Nat)) = digitsText (grayCode width (q : Nat)) → p = q) ∧
    ∀ p < 2 ^ width, ∃! i : Nat,
      (digitsText (grayCode width (p : Nat))).toList[i]? ≠
        (digitsText (grayCode width ((p + 1) % 2 ^ width : Nat))).toList[i]? := by
  refine ⟨fun p hp => ?_, fun p hp q hq same => ?_, fun p hp => ?_⟩
  · rw [← String.length_toList, toList_digitsText, List.length_map, grayCode_eq_lastDigits hp,
      length_lastDigits]
  · have digits := digitsText_inj same
    rw [grayCode_eq_lastDigits hp, grayCode_eq_lastDigits hq] at digits
    apply grayNumber_inj
    rw [← numberOf_lastDigits_of_lt (grayNumber_lt hp), digits,
      numberOf_lastDigits_of_lt (grayNumber_lt hq)]
  · obtain ⟨k, inside, turned⟩ := exists_turned positive hp
    have next : (p + 1) % 2 ^ width < 2 ^ width := Nat.mod_lt _ (Nat.two_pow_pos width)
    have differ : ∀ i, (digitsText (grayCode width (p : Nat))).toList[i]? ≠
        (digitsText (grayCode width ((p + 1) % 2 ^ width : Nat))).toList[i]? ↔
          i < width ∧ width - 1 - i = k := by
      intro i
      rw [toList_digitsText, toList_digitsText, List.getElem?_map, List.getElem?_map,
        grayCode_eq_lastDigits hp, grayCode_eq_lastDigits next, getElem?_lastDigits,
        getElem?_lastDigits, turned]
      by_cases within : i < width
      · cases (grayNumber p).testBit (width - 1 - i) <;> simp [within]
      · simp [within]
    refine ⟨width - 1 - k, (differ _).mpr ⟨by omega, by omega⟩, fun i other => ?_⟩
    obtain ⟨within, place⟩ := (differ i).mp other
    omega

theorem grayCode_cyclic_three :
    0 < 3 ∧ (digitsText (grayCode 3 (6 : Nat))).length = 3 ∧
      (digitsText (grayCode 3 (6 : Nat)) = digitsText (grayCode 3 (7 : Nat)) → 6 = 7) ∧
      ∃! i : Nat, (digitsText (grayCode 3 (7 : Nat))).toList[i]? ≠
        (digitsText (grayCode 3 ((7 + 1) % 2 ^ 3 : Nat))).toList[i]? := by
  obtain ⟨length, apart, next⟩ := grayCode_cyclic (show 0 < 3 by decide)
  exact ⟨by decide, length 6 (by decide), apart 6 (by decide) 7 (by decide), next 7 (by decide)⟩

end Switching
