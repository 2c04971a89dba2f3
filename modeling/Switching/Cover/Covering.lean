import Switching.Cover.Greedy

/-!
Covering problems: of every clause a candidate has to be chosen, and the choice is to be as cheap as
possible. A solver is told nothing else of the implicants and minterms that a problem is about.
-/
namespace Switching

/-- A covering problem. The candidates are named by their places in the list of prices, and a clause
lists the candidates of which one has to be chosen. -/
structure Covering where
  prices : List Nat
  clauses : List (List Nat)
  known : ∀ clause ∈ clauses, ∀ place ∈ clause, place < prices.length

namespace Covering

def ofImplicants (is : List Implicant) (minterms : List Nat) : Covering where
  prices := is.map (·.price)
  clauses := minterms.map fun m => ((Candidate.ofList is).filter (·.covers m)).map (·.place)
  known := by
    intro clause hclause place hplace
    obtain ⟨m, _, rfl⟩ := List.mem_map.mp hclause
    obtain ⟨c, hc, rfl⟩ := List.mem_map.mp hplace
    obtain ⟨e, he, rfl⟩ := List.mem_map.mp (List.mem_filter.mp hc).1
    have bound := List.snd_lt_add_of_mem_zipIdx he
    simpa using bound

def Meets (p : Covering) (chosen : List Nat) : Prop :=
  ∀ clause ∈ p.clauses, ∃ place ∈ clause, place ∈ chosen

def cost (p : Covering) (chosen : List Nat) : Nat :=
  total ((p.prices.zipIdx.filter fun e => chosen.contains e.2).map Prod.fst)

end Covering

/-- A solver of covering problems: it answers with the places of the candidates to choose. -/
abbrev Solver := Covering → Option (List Nat)

namespace Solver

def Sound (solve : Solver) : Prop :=
  ∀ p : Covering, (∃ chosen, p.Meets chosen) → ∃ chosen, solve p = some chosen ∧ p.Meets chosen

/-- Every problem that has a solution is solved at the least price. -/
def Optimal (solve : Solver) : Prop :=
  ∀ p : Covering, (∃ chosen, p.Meets chosen) →
    ∃ chosen, solve p = some chosen ∧ p.Meets chosen ∧
      ∀ other, p.Meets other → p.cost chosen ≤ p.cost other

theorem Optimal.sound {solve : Solver} (h : solve.Optimal) : solve.Sound := by
  intro p solvable
  obtain ⟨chosen, answer, meets, _⟩ := h p solvable
  exact ⟨chosen, answer, meets⟩

end Solver

end Switching
