import Mathlib.Data.List.Dedup
import Mathlib.Data.List.MinMax
import Mathlib.Data.List.Sublists
import Switching.Cover.Clauses
import Switching.Proofs.Counting

/-! Covering problems stand for themselves as clauses: a choice of candidates meets the problem if
the values of the variables satisfy the clauses, and it costs what they weigh. So a solver of
clauses that answers with a model of the least weight makes an optimal solver of covering problems.
There is such a solver, the one that tries all models. -/
namespace Switching

namespace WeightedClauses

variable {p : Covering} {chosen : List Nat} {v u : Nat → Bool}

/-- The variables of the chosen candidates are the ones that hold. -/
def Encodes (v : Nat → Bool) (chosen : List Nat) : Prop :=
  ∀ place, v (place + 1) = chosen.contains place

def valuesOf (chosen : List Nat) (number : Nat) : Bool := chosen.contains (number - 1)

theorem encodes_valuesOf (chosen : List Nat) : Encodes (valuesOf chosen) chosen :=
  fun _ => rfl

theorem encodes_placesOf (model : List Int) : Encodes (valuation model) (placesOf model) := by
  intro place
  apply Bool.eq_iff_iff.mpr
  simp only [valuation, placesOf, List.contains_iff_mem, List.mem_map, List.mem_filter,
    decide_eq_true_eq]
  constructor
  · intro member
    exact ⟨_, ⟨member, by omega⟩, by omega⟩
  · rintro ⟨literal, ⟨member, positive⟩, same⟩
    have written : ((place + 1 : Nat) : Int) = literal := by omega
    exact written ▸ member

theorem literalHolds_variableOf (v : Nat → Bool) (place : Nat) :
    literalHolds v (variableOf place) = v (place + 1) := by
  have positive : 0 < variableOf place := by
    unfold variableOf
    omega
  have number : (variableOf place).natAbs = place + 1 := by
    unfold variableOf
    omega
  simp only [literalHolds, if_pos positive, number]

theorem literalHolds_neg_variableOf (v : Nat → Bool) (place : Nat) :
    literalHolds v (-variableOf place) = !v (place + 1) := by
  have negative : ¬0 < -variableOf place := by
    unfold variableOf
    omega
  have number : (-variableOf place).natAbs = place + 1 := by
    unfold variableOf
    omega
  simp only [literalHolds, if_neg negative, number]

theorem satisfied_ofCovering (same : Encodes v chosen) :
    (ofCovering p).Satisfied v ↔ p.Meets chosen := by
  simp only [Satisfied, ofCovering, Covering.Meets, List.forall_mem_map]
  apply forall₂_congr
  intro clause _
  simp only [clauseHolds, List.any_map, List.any_eq_true, Function.comp_apply,
    literalHolds_variableOf, same _, List.contains_iff_mem]

theorem weight_ofCovering (same : Encodes v chosen) : (ofCovering p).weight v = p.cost chosen := by
  have unmet : ∀ place, clauseHolds v [-variableOf place] = !chosen.contains place := by
    intro place
    simp only [clauseHolds, List.any_cons, List.any_nil, Bool.or_false,
      literalHolds_neg_variableOf, same place]
  simp only [weight, ofCovering, Covering.cost, List.filter_map, List.map_map, Function.comp_def,
    unmet, Bool.not_not]

end WeightedClauses

namespace ClauseSolver

open WeightedClauses

variable {solve : ClauseSolver}

theorem Optimal.toSolver (optimal : solve.Optimal) : solve.toSolver.Optimal := by
  rintro p ⟨known, meets⟩
  obtain ⟨model, answer, satisfied, least⟩ := optimal (.ofCovering p)
    ⟨_, (satisfied_ofCovering (encodes_valuesOf known)).mpr meets⟩
  have same := encodes_placesOf model
  refine ⟨placesOf model, by simp only [ClauseSolver.toSolver, answer, Option.map_some],
    (satisfied_ofCovering same).mp satisfied, fun other also => ?_⟩
  have weighs := least _ ((satisfied_ofCovering (encodes_valuesOf other)).mpr also)
  simpa only [weight_ofCovering same, weight_ofCovering (encodes_valuesOf other)] using weighs

end ClauseSolver

namespace WeightedClauses

variable {w : WeightedClauses} {v u : Nat → Bool}

instance (w : WeightedClauses) (v : Nat → Bool) : Decidable (w.Satisfied v) :=
  inferInstanceAs (Decidable (∀ clause ∈ w.hard, clauseHolds v clause = true))

def numbers (w : WeightedClauses) : List Nat :=
  (w.hard ++ w.soft.map Prod.fst).flatten.map Int.natAbs

theorem clauseHolds_congr {clause : List Int}
    (agree : ∀ literal ∈ clause, v literal.natAbs = u literal.natAbs) :
    clauseHolds v clause = clauseHolds u clause := by
  apply Bool.eq_iff_iff.mpr
  simp only [clauseHolds, List.any_eq_true]
  apply exists_congr
  intro literal
  apply and_congr_right
  intro member
  simp only [literalHolds, agree literal member]

theorem clauseHolds_of_agree (agree : ∀ n ∈ w.numbers, v n = u n) {clause : List Int}
    (member : clause ∈ w.hard ++ w.soft.map Prod.fst) :
    clauseHolds v clause = clauseHolds u clause :=
  clauseHolds_congr fun _ h =>
    agree _ (List.mem_map_of_mem (List.mem_flatten_of_mem member h))

theorem satisfied_congr (agree : ∀ n ∈ w.numbers, v n = u n) : w.Satisfied v ↔ w.Satisfied u := by
  apply forall₂_congr
  intro clause member
  simp only [clauseHolds_of_agree agree (List.mem_append_left _ member)]

theorem weight_congr (agree : ∀ n ∈ w.numbers, v n = u n) : w.weight v = w.weight u := by
  have same : w.soft.filter (fun s => !clauseHolds v s.1) =
      w.soft.filter fun s => !clauseHolds u s.1 := by
    apply List.filter_congr
    intro s member
    have clause := List.mem_append_right w.hard (List.mem_map_of_mem (f := Prod.fst) member)
    simp only [clauseHolds_of_agree agree clause]
  simp only [weight, same]

def modelOf (w : WeightedClauses) (v : Nat → Bool) : List Int :=
  (w.numbers.dedup.filter v).map Int.ofNat

theorem valuation_modelOf {n : Nat} (h : n ∈ w.numbers) : valuation (w.modelOf v) n = v n := by
  apply Bool.eq_iff_iff.mpr
  simp only [valuation, modelOf, List.contains_iff_mem, List.mem_map, List.mem_filter,
    List.mem_dedup, Int.ofNat_eq_natCast, Int.natCast_inj]
  constructor
  · rintro ⟨_, ⟨_, holds⟩, rfl⟩
    exact holds
  · exact fun holds => ⟨n, ⟨h, holds⟩, rfl⟩

def models (w : WeightedClauses) : List (List Int) :=
  (w.numbers.dedup.sublists.map (·.map Int.ofNat)).filter fun model => w.Satisfied (valuation model)

theorem modelOf_mem_models (satisfied : w.Satisfied v) : w.modelOf v ∈ w.models := by
  apply List.mem_filter.mpr
  constructor
  · exact List.mem_map_of_mem (List.mem_sublists.mpr List.filter_sublist)
  · exact decide_eq_true
      ((satisfied_congr fun _ h => valuation_modelOf h).mpr satisfied)

end WeightedClauses

namespace ClauseSolver

open WeightedClauses

def exhaustive : ClauseSolver := fun w => w.models.argmin fun model => w.weight (valuation model)

theorem exhaustive_optimal : exhaustive.Optimal := by
  rintro w ⟨v, satisfied⟩
  cases found : exhaustive w with
  | none =>
    have none := List.argmin_eq_none.mp found
    exact absurd (modelOf_mem_models satisfied) (none ▸ List.not_mem_nil)
  | some model =>
    have member := List.mem_filter.mp (List.argmin_mem found)
    refine ⟨model, rfl, of_decide_eq_true member.2, fun u also => ?_⟩
    have least := List.le_of_mem_argmin (modelOf_mem_models also) found
    simpa only [weight_congr fun _ h => valuation_modelOf (v := u) h] using least

end ClauseSolver

end Switching
