import Mathlib.Algebra.Group.Nat.Defs
import Mathlib.Data.Nat.Basic
import Switching.Binary

/-! The digits of a number in a field that it fits in. Fields of one width and the numbers below a
power of two correspond to each other, so a set of minterms is a set of digit lists. The digits can be
read off their text. -/
namespace Switching

def lastDigits : Nat → Nat → List Bool
  | 0, _ => []
  | width + 1, n => n.testBit width :: lastDigits width n

def numberOf : List Bool → Nat
  | [] => 0
  | b :: bs => 2 ^ bs.length * b.toNat + numberOf bs

@[simp]
theorem length_lastDigits (width n : Nat) : (lastDigits width n).length = width := by
  induction width with
  | zero => rfl
  | succ width ih => simp [lastDigits, ih]

theorem lastDigits_eq_map (width n : Nat) :
    lastDigits width n = (List.range width).reverse.map n.testBit := by
  induction width with
  | zero => rfl
  | succ width ih => simp [lastDigits, ih, List.range_succ]

theorem getElem?_lastDigits (width n i : Nat) :
    (lastDigits width n)[i]? = if i < width then some (n.testBit (width - 1 - i)) else none := by
  rw [lastDigits_eq_map, List.getElem?_map]
  by_cases inside : i < width
  · rw [List.getElem?_reverse (by simpa using inside), List.length_range,
      List.getElem?_range (by omega), if_pos inside, Option.map_some]
  · rw [List.getElem?_eq_none (by simpa using inside), if_neg inside, Option.map_none]

theorem binaryField_eq_lastDigits {width n : Nat} (h : n < 2 ^ width) :
    binaryField width n = lastDigits width n := by
  cases width with
  | zero => rfl
  | succ width =>
    have size : max (width + 1) (n.log2 + 1) = width + 1 := by
      by_cases hn : n = 0
      · subst hn; simp
      · have := (Nat.log2_lt hn).mpr h
        omega
    rw [binaryField, if_neg (Nat.succ_ne_zero _), binaryDigits, size, lastDigits_eq_map]

theorem numberOf_lt (bs : List Bool) : numberOf bs < 2 ^ bs.length := by
  induction bs with
  | nil => decide
  | cons b bs ih =>
    rw [numberOf, List.length_cons, Nat.pow_succ]
    cases b
    · simp only [Bool.toNat_false]; omega
    · simp only [Bool.toNat_true]; omega

theorem lastDigits_mod (width n k : Nat) (h : width ≤ k) :
    lastDigits width (n % 2 ^ k) = lastDigits width n := by
  induction width with
  | zero => rfl
  | succ width ih =>
    have hk : width < k := h
    rw [lastDigits, lastDigits, ih (Nat.le_of_lt hk), Nat.testBit_mod_two_pow]
    simp [hk]

theorem lastDigits_numberOf (bs : List Bool) : lastDigits bs.length (numberOf bs) = bs := by
  induction bs with
  | nil => rfl
  | cons b bs ih =>
    have low : numberOf (b :: bs) % 2 ^ bs.length = numberOf bs := by
      rw [numberOf, Nat.mul_add_mod, Nat.mod_eq_of_lt (numberOf_lt bs)]
    have head : (numberOf (b :: bs)).testBit bs.length = b := by
      rw [numberOf, Nat.testBit_two_pow_mul_add b.toNat (numberOf_lt bs)]
      cases b <;> simp
    rw [List.length_cons, lastDigits, head, ← lastDigits_mod _ _ _ (Nat.le_refl _), low, ih]

theorem numberOf_lastDigits (width n : Nat) : numberOf (lastDigits width n) = n % 2 ^ width := by
  induction width with
  | zero => simp [lastDigits, numberOf, Nat.mod_one]
  | succ width ih =>
    rw [lastDigits, numberOf, ih, length_lastDigits]
    have cut := Nat.div_add_mod (n % 2 ^ (width + 1)) (2 ^ width)
    have high : n % 2 ^ (width + 1) / 2 ^ width = (n.testBit width).toNat := by
      rw [Nat.pow_succ, Nat.mod_mul_right_div_self, Nat.testBit_eq_decide_div_mod_eq]
      rcases Nat.mod_two_eq_zero_or_one (n / 2 ^ width) with h | h <;> simp [h]
    have rest : n % 2 ^ (width + 1) % 2 ^ width = n % 2 ^ width :=
      Nat.mod_mod_of_dvd n (Nat.pow_dvd_pow 2 (Nat.le_succ width))
    rw [high, rest] at cut
    exact cut

theorem numberOf_lastDigits_of_lt {width n : Nat} (h : n < 2 ^ width) :
    numberOf (lastDigits width n) = n := by
  rw [numberOf_lastDigits, Nat.mod_eq_of_lt h]

theorem bitText_inj {b c : Bool} (same : bitText b = bitText c) : b = c := by
  cases b <;> cases c <;> first | rfl | exact absurd same (by decide)

theorem toList_digitsText (bs : List Bool) :
    (digitsText bs).toList = bs.map fun b => if b then '1' else '0' := by
  induction bs with
  | nil => rfl
  | cons b bs ih =>
    have first : (bitText b).toList = [if b then '1' else '0'] := by cases b <;> rfl
    rw [digitsText, List.map_cons, String.join_cons, String.toList_append, first,
      ← digitsText, ih]
    rfl

theorem digitsText_inj {bs cs : List Bool} (same : digitsText bs = digitsText cs) : bs = cs := by
  have letters := congrArg String.toList same
  rw [toList_digitsText, toList_digitsText] at letters
  exact (List.map_inj_right (by decide)).mp letters

end Switching
