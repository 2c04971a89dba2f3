import Switching.Assignment
import Switching.Proofs.Digits

/-! The assignments over a list of names and their numbers. The assignment with the number that
values spell has these values; over names without repetition every number below the power of two is
spelled by values. -/
namespace Switching

namespace Assignment

variable {names : List String} {v : String → Bool} {x : String}

def valuation (names : List String) (m : Nat) (x : String) : Bool :=
  ((ofNumber m names).value? x).getD false

theorem bitAt_natCast (n k : Nat) : bitAt n k = n.testBit k := by
  have shift : ((n : Int) >>> k) % 2 = ((n >>> k % 2 : Nat) : Int) := rfl
  rw [bitAt, shift, Nat.testBit_eq_decide_div_mod_eq, Nat.shiftRight_eq_div_pow, Bool.eq_iff_iff]
  simp only [beq_iff_eq, decide_eq_true_eq]
  omega

theorem numberEntries_eq (n : Nat) (names : List String) :
    numberEntries n names = names.zip (lastDigits names.length n) := by
  induction names with
  | nil => rfl
  | cons name names ih =>
    rw [numberEntries, ih, bitAt_natCast, List.length_cons, lastDigits, List.zip_cons_cons]

theorem numberEntries_numberOf (v : String → Bool) (names : List String) :
    numberEntries (numberOf (names.map v)) names = names.map fun x => (x, v x) := by
  have digits := lastDigits_numberOf (names.map v)
  rw [List.length_map] at digits
  rw [numberEntries_eq, digits]
  induction names with
  | nil => rfl
  | cons name names ih =>
    rw [List.map_cons, List.zip_cons_cons, List.map_cons,
      ih (by simpa using lastDigits_numberOf (names.map v))]

theorem value?_foldl (v : String → Bool) (names : List String) (a : Assignment) (x : String) :
    ((names.map fun x => (x, v x)).foldl (fun a e => a.set e.1 e.2) a).value? x =
      if x ∈ names then some (v x) else a.value? x := by
  induction names generalizing a with
  | nil => simp
  | cons name names ih =>
    rw [List.map_cons, List.foldl_cons, ih, value?_set]
    by_cases later : x ∈ names
    · simp [later]
    · by_cases same : x = name
      · simp [same]
      · simp [later, same]

theorem value?_ofNumber_numberOf (hx : x ∈ names) :
    (ofNumber (numberOf (names.map v)) names).value? x = some (v x) := by
  rw [ofNumber, numberEntries_numberOf, ofList, value?_foldl, if_pos hx]

theorem valuation_numberOf (hx : x ∈ names) :
    valuation names (numberOf (names.map v)) x = v x := by
  rw [valuation, value?_ofNumber_numberOf hx, Option.getD_some]

theorem exists_values (nodup : names.Nodup) (bs : List Bool) (length : bs.length = names.length) :
    ∃ v : String → Bool, names.map v = bs := by
  induction names generalizing bs with
  | nil =>
    have nil : bs = [] := List.length_eq_zero_iff.mp length
    exact ⟨fun _ => false, nil.symm⟩
  | cons name names ih =>
    obtain ⟨fresh, nodup⟩ := List.nodup_cons.mp nodup
    cases bs with
    | nil => cases length
    | cons b bs =>
      obtain ⟨v, rfl⟩ := ih nodup bs (Nat.succ.inj length)
      refine ⟨fun x => if x = name then b else v x, ?_⟩
      rw [List.map_cons, if_pos rfl]
      refine congrArg (b :: ·) (List.map_congr_left fun x hx => ?_)
      have other : x ≠ name := fun same => fresh (same ▸ hx)
      exact if_neg other

theorem exists_numberOf (nodup : names.Nodup) {m : Nat} (hm : m < 2 ^ names.length) :
    ∃ v : String → Bool, m = numberOf (names.map v) := by
  obtain ⟨v, digits⟩ := exists_values nodup (lastDigits names.length m) (length_lastDigits ..)
  exact ⟨v, by rw [digits, numberOf_lastDigits_of_lt hm]⟩

theorem value?_ofNumber (nodup : names.Nodup) {m : Nat} (hm : m < 2 ^ names.length)
    (hx : x ∈ names) : (ofNumber m names).value? x = some (valuation names m x) := by
  obtain ⟨v, rfl⟩ := exists_numberOf nodup hm
  rw [valuation, value?_ofNumber_numberOf hx, Option.getD_some]

end Assignment

end Switching
