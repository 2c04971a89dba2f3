import Switching.Proofs.Cover.Clauses
import Switching.Proofs.Cover.Exact

/-! The cheapest cover of any minterms by any implicants, whether they are prime or not and however
often a pattern is listed. The solver may be one that reads clauses or the search. -/
namespace Switching

namespace Cover

variable {is : List Implicant} {minterms : List Nat} {solve : Solver}

theorem exists_picked {part : List Implicant} (sub : part.Sublist is) :
    ∃ places, picked is places = part := by
  have listed : part.Sublist ((Candidate.ofList is).map (·.implicant)) := by
    simpa only [Candidate.map_implicant_ofList] using sub
  obtain ⟨cs, few, rfl⟩ := List.sublist_map_iff.mp listed
  have same : ((Candidate.ofList is).filter fun c => (cs.map (·.place)).contains c.place) =
      (Candidate.ofList is).filter (· ∈ cs) := by
    apply List.filter_congr
    intro c hc
    apply Bool.eq_iff_iff.mpr
    simp only [List.contains_iff_mem, decide_eq_true_eq]
    constructor
    · intro place
      obtain ⟨d, hd, also⟩ := List.mem_map.mp place
      exact Candidate.eq_of_place (few.subset hd) hc also ▸ hd
    · exact List.mem_map_of_mem
  refine ⟨cs.map (·.place), ?_⟩
  simp only [picked, same, filter_mem_eq_of_sublist (Candidate.nodup_ofList is) few]

/-- What is asked of a choice of implicants: it is empty if there are no minterms, it is refused for
the first minterm that no implicant covers, and otherwise it is a part of the list that covers the
minterms and costs no more than any other part that does. -/
structure Cheapest (is : List Implicant) (minterms : List Nat)
    (answer : Except Fault (List Implicant)) : Prop where
  nothing : minterms = [] → answer = .ok []
  refused : ∀ cause, answer = .error cause ↔ ∃ front m back, minterms = front ++ m :: back ∧
    (∀ k ∈ front, is.any (·.covers k) = true) ∧ is.any (·.covers m) = false ∧
      cause = .uncoverable (some m)
  least : (∀ m ∈ minterms, is.any (·.covers m) = true) →
    ∃ chosen, answer = .ok chosen ∧ chosen.Sublist is ∧
      (∀ m ∈ minterms, Implicant.sumCovers chosen m = true) ∧
        ∀ other : List Implicant, other.Sublist is →
          (∀ m ∈ minterms, Implicant.sumCovers other m = true) →
            Implicant.sumPrice chosen ≤ Implicant.sumPrice other

theorem exact_of_uncovered {front back : List Nat} {m : Nat}
    (before : ∀ k ∈ front, is.any (·.covers k) = true) (none : is.any (·.covers m) = false) :
    exact is (front ++ m :: back) solve = .error (.uncoverable (some m)) := by
  have some : front ++ m :: back ≠ [] := by simp
  have found : (front ++ m :: back).find? (fun k => !is.any (·.covers k)) = .some m := by
    refine List.find?_eq_some_iff_append.mpr ⟨?_, front, back, rfl, fun k hk => ?_⟩
    · simp only [none, Bool.not_false]
    · simp only [before k hk, Bool.not_true, Bool.not_false]
  simp only [exact, if_neg some, found]

theorem exists_first_uncovered (h : ¬∀ m ∈ minterms, is.any (·.covers m) = true) :
    ∃ front m back, minterms = front ++ m :: back ∧
      (∀ k ∈ front, is.any (·.covers k) = true) ∧ is.any (·.covers m) = false := by
  cases found : minterms.find? (fun m => !is.any (·.covers m)) with
  | none =>
    refine absurd (fun m hm => ?_) h
    simpa using List.find?_eq_none.mp found m hm
  | some m =>
    obtain ⟨none, front, back, split, before⟩ := List.find?_eq_some_iff_append.mp found
    refine ⟨front, m, back, split, fun k hk => ?_, by simpa using none⟩
    simpa using before k hk

theorem cheapest_exact (optimal : solve.Optimal) (is : List Implicant) (minterms : List Nat) :
    Cheapest is minterms (exact is minterms solve) where
  nothing none := if_pos none
  refused cause := by
    constructor
    · intro refusal
      have uncovered : ¬∀ m ∈ minterms, is.any (·.covers m) = true := by
        intro covered
        obtain ⟨chosen, answer, _⟩ := exact_covers optimal.sound covered
        cases answer.symm.trans refusal
      obtain ⟨front, m, back, rfl, before, none⟩ := exists_first_uncovered uncovered
      cases (exact_of_uncovered before none).symm.trans refusal
      exact ⟨front, m, back, rfl, before, none, rfl⟩
    · rintro ⟨front, m, back, rfl, before, none, rfl⟩
      exact exact_of_uncovered before none
  least covered := by
    obtain ⟨chosen, answer, part, covers⟩ := exact_covers optimal.sound covered
    obtain ⟨_, same, least⟩ := exact_least optimal covered
    cases answer.symm.trans same
    refine ⟨chosen, answer, part, covers, fun other sub also => ?_⟩
    obtain ⟨places, rfl⟩ := exists_picked sub
    exact least places also

/-- The choice is the cheapest with a solver of clauses that finds a model of the least weight where
there is one, and with the search that the library comes with. -/
theorem exact_optimal {s : ClauseSolver} (optimal : s.Optimal) (is : List Implicant)
    (minterms : List Nat) :
    Cheapest is minterms (exact is minterms s.toSolver) ∧
      Cheapest is minterms (exact is minterms) :=
  ⟨cheapest_exact optimal.toSolver is minterms,
    cheapest_exact Solver.branchAndBound_optimal is minterms⟩

theorem exact_optimal_cycle :
    let is : List Implicant := ["00-", "0-1", "-11", "11-", "1-0", "1-0", "-00"].map fun s =>
      ⟨.ofText s, [], false⟩
    ClauseSolver.exhaustive.Optimal ∧
      (∃ chosen, exact is [7, 0, 1, 3, 6, 4, 0] ClauseSolver.exhaustive.toSolver = .ok chosen ∧
        chosen.Sublist is ∧ Implicant.sumPrice chosen ≤ 9) ∧
      exact is [7, 2, 0, 5] ClauseSolver.exhaustive.toSolver = .error (.uncoverable (some 2)) := by
  intro is
  have optimal := ClauseSolver.exhaustive_optimal
  refine ⟨optimal, ?_, ?_⟩
  · obtain ⟨chosen, answer, part, _, least⟩ :=
      (exact_optimal optimal is [7, 0, 1, 3, 6, 4, 0]).1.least (by decide)
    let three : List Implicant := ["00-", "-11", "1-0"].map fun s => ⟨.ofText s, [], false⟩
    exact ⟨chosen, answer, part, least three (by decide) (by decide)⟩
  · exact ((exact_optimal optimal is [7, 2, 0, 5]).1.refused _).mpr
      ⟨[7], 2, [0, 5], rfl, by decide, by decide, rfl⟩

end Cover

end Switching
