import Switching.Proofs.OnSet
import Switching.Proofs.Valuation
import Switching.Proofs.Value
import Switching.TruthTable

/-! The truth table of a formula over names that it is covered by: every row is made, and the
minterms are the numbers at which the formula is true. -/
namespace Switching

theorem mapM_eq_ok {α β ε : Type} {f : α → Except ε β} {g : α → β} {as : List α}
    (h : ∀ a ∈ as, f a = .ok (g a)) : as.mapM f = .ok (as.map g) := by
  induction as with
  | nil => rfl
  | cons a as ih =>
    rw [List.mapM_cons, h a (List.mem_cons_self ..),
      ih fun b hb => h b (List.mem_cons_of_mem _ hb)]
    rfl

namespace TruthTable

open Assignment

variable {f : Formula} {names : List String}

def rowOf (f : Formula) (names : List String) (i : Nat) : Row where
  inputs := ofNumber i names
  output := f.value (valuation names i)
  minterm := i
  maxterm := powerOfTwo names.length - 1 - i

theorem ofFormula_row (nodup : names.Nodup) (sub : f.names ⊆ names) {i : Nat}
    (hi : i < 2 ^ names.length) : Row.ofFormula f names i = .ok (rowOf f names i) := by
  have value : f.evaluate (ofNumber i names) = .ok (f.value (valuation names i)) :=
    Formula.evaluate_eq fun x hx => value?_ofNumber nodup hi (sub hx)
  simp only [Row.ofFormula, value]
  rfl

def tableOf (f : Formula) (names : List String) (expression : String) : TruthTable where
  names := names
  rows := (List.range (2 ^ names.length)).map (rowOf f names)
  expression := expression

theorem ofFormula_eq_ok (nodup : names.Nodup) (sub : f.names ⊆ names)
    (small : names.length ≤ Activity.table.limit) (expression? : Option String) :
    ofFormula f (some names) expression? =
      .ok (tableOf f names (expression?.getD f.infixText)) := by
  have rows : (List.range (powerOfTwo names.length)).mapM (Row.ofFormula f names) =
      .ok ((List.range (2 ^ names.length)).map (rowOf f names)) :=
    mapM_eq_ok fun i hi => ofFormula_row nodup sub (List.mem_range.mp hi)
  rw [ofFormula, Option.getD_some, if_neg (Nat.not_lt.mpr small), rows]
  rfl

def mintermsOf (f : Formula) (names : List String) : List Nat :=
  (List.range (2 ^ names.length)).filter fun m => f.value (valuation names m)

theorem minterms_tableOf (f : Formula) (names : List String) (expression : String) :
    (tableOf f names expression).minterms = mintermsOf f names := by
  rw [minterms, tableOf, List.filter_map, List.map_map, mintermsOf]
  exact List.map_id _

theorem isOnSet_mintermsOf (f : Formula) (names : List String) :
    IsOnSet names.length (mintermsOf f names) where
  ascending := List.pairwise_lt_range.filter _
  bound _ hm := List.mem_range.mp (List.mem_of_mem_filter hm)

theorem numberOf_mem_mintermsOf (sub : f.names ⊆ names) (v : String → Bool) :
    numberOf (names.map v) ∈ mintermsOf f names ↔ f.value v = true := by
  have bound : numberOf (names.map v) < 2 ^ names.length := by
    simpa using numberOf_lt (names.map v)
  have same : f.value (valuation names (numberOf (names.map v))) = f.value v :=
    Formula.value_congr fun x hx => valuation_numberOf (sub hx)
  rw [mintermsOf, List.mem_filter, List.mem_range, same]
  exact and_iff_right bound

end TruthTable

end Switching
