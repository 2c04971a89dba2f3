import Mathlib.Data.List.Nodup
import Switching.Proofs.Cover.Greedy
import Switching.Proofs.Cover.Search

/-! The covers that a solver chooses. The search is an optimal solver, and with any sound solver
every minterm that some implicant covers stays covered. -/
namespace Switching

namespace Column

variable {p : Covering} {chosen : List Nat} {cs : List Column} {c d : Column} {row : Nat}

theorem mem_ofCovering (h : c ∈ ofCovering p) : p.prices[c.place]? = some c.price ∧
    c.marks = packBits (p.clauses.map (·.contains c.place)) := by
  obtain ⟨e, he, rfl⟩ := List.mem_map.mp h
  exact ⟨List.mem_zipIdx_iff_getElem?.mp he, rfl⟩

theorem exists_of_place {place : Nat} (h : place < p.prices.length) :
    ∃ c ∈ ofCovering p, c.place = place := by
  have entry : (p.prices[place], place) ∈ p.prices.zipIdx :=
    List.mem_zipIdx_iff_getElem?.mpr (List.getElem?_eq_getElem h)
  exact ⟨_, List.mem_map_of_mem entry, rfl⟩

theorem eq_of_place (hc : c ∈ ofCovering p) (hd : d ∈ ofCovering p) (same : c.place = d.place) :
    c = d := by
  obtain ⟨priceC, marksC⟩ := mem_ofCovering hc
  obtain ⟨priceD, marksD⟩ := mem_ofCovering hd
  have price : c.price = d.price :=
    Option.some.inj (priceC.symm.trans ((congrArg (p.prices[·]?) same).trans priceD))
  cases c
  cases d
  simp_all

theorem nodup_ofCovering (p : Covering) : (ofCovering p).Nodup := by
  have places : (ofCovering p).map (·.place) = List.range p.prices.length := by
    simp [ofCovering, Function.comp_def, List.zipIdx_map_snd, List.range_eq_range']
  exact List.Nodup.of_map _ (places ▸ List.nodup_range)

theorem marked_iff (h : c ∈ ofCovering p) :
    c.marked row = true ↔ ∃ clause, p.clauses[row]? = some clause ∧ c.place ∈ clause := by
  rw [marked, (mem_ofCovering h).2, testBit_packBits, List.getElem?_map]
  cases p.clauses[row]? with
  | none => simp
  | some clause => simp

def picked (p : Covering) (chosen : List Nat) : List Column :=
  (ofCovering p).filter fun c => chosen.contains c.place

theorem mem_picked : c ∈ picked p chosen ↔ c ∈ ofCovering p ∧ c.place ∈ chosen := by
  rw [picked, List.mem_filter, List.contains_iff_mem]

theorem mark_picked : Mark (picked p chosen) (List.range p.clauses.length) ↔ p.Meets chosen := by
  constructor
  · intro marks clause hclause
    obtain ⟨row, hrow⟩ := List.mem_iff_getElem?.mp hclause
    have bound : row < p.clauses.length := (List.getElem?_eq_some_iff.mp hrow).1
    obtain ⟨c, hc, marked⟩ := marks row (List.mem_range.mpr bound)
    obtain ⟨hc, place⟩ := mem_picked.mp hc
    obtain ⟨clause', hrow', member⟩ := (marked_iff hc).mp marked
    rw [hrow] at hrow'
    exact ⟨c.place, Option.some.inj hrow' ▸ member, place⟩
  · intro meets row hrow
    have bound := List.mem_range.mp hrow
    have entry := List.getElem?_eq_getElem bound
    obtain ⟨place, member, picked⟩ := meets _ (List.getElem_mem bound)
    obtain ⟨c, hc, rfl⟩ := exists_of_place (p.known _ (List.getElem_mem bound) _ member)
    exact ⟨c, mem_picked.mpr ⟨hc, picked⟩, (marked_iff hc).mpr ⟨_, entry, member⟩⟩

theorem cost_picked (p : Covering) (chosen : List Nat) :
    cost (picked p chosen) = p.cost chosen := by
  simp [cost, picked, ofCovering, Covering.cost, List.filter_map, Function.comp_def]

theorem picked_subset (p : Covering) (chosen : List Nat) : picked p chosen ⊆ ofCovering p :=
  fun _ hc => (mem_picked.mp hc).1

theorem picked_places_perm (nodup : cs.Nodup) (sub : cs ⊆ ofCovering p) :
    (picked p (cs.map (·.place))).Perm cs := by
  refine (List.perm_ext_iff_of_nodup ((nodup_ofCovering p).filter _) nodup).mpr fun c => ?_
  constructor
  · intro hc
    obtain ⟨hc, place⟩ := mem_picked.mp hc
    obtain ⟨d, hd, same⟩ := List.mem_map.mp place
    exact eq_of_place (sub hd) hc same ▸ hd
  · intro hc
    exact mem_picked.mpr ⟨sub hc, List.mem_map_of_mem hc⟩

theorem cost_cons_le (h : c ∈ ofCovering p) (places : List Nat) :
    p.cost (c.place :: places) ≤ c.price + p.cost places := by
  have single : p.cost [c.place] = c.price := by
    have same := picked_places_perm (List.nodup_singleton c) fun d hd =>
      List.mem_singleton.mp hd ▸ h
    rw [← cost_picked]
    exact total_perm (same.map _)
  have both := total_filter_or_le Prod.fst (fun e => [c.place].contains e.2)
    (fun e => places.contains e.2) p.prices.zipIdx
  have split : (fun e : Nat × Nat => [c.place].contains e.2 || places.contains e.2) =
      fun e => (c.place :: places).contains e.2 := by
    funext e
    simp
  rw [split] at both
  exact single ▸ both

end Column

namespace Solver

open Column Selection

/-- The search solves every problem that has a solution, and at the least price. -/
theorem branchAndBound_optimal : branchAndBound.Optimal := by
  intro p ⟨known, hknown⟩
  have answers := search_answers (ofCovering p)
    (scarcestFirst (ofCovering p) (List.range p.clauses.length))
    (total ((ofCovering p).map (·.price)) + 1) (nodup_ofCovering p)
  have least : ∀ other, p.Meets other → reached (total ((ofCovering p).map (·.price)) + 1)
      (cheapest (ofCovering p) p.clauses.length) ≤ p.cost other := by
    intro other meets
    rw [← cost_picked]
    exact answers.least _ (picked_subset p other)
      (mark_scarcestFirst.mpr (mark_picked.mpr meets))
  have below : p.cost known < total ((ofCovering p).map (·.price)) + 1 := by
    rw [← cost_picked]
    exact Nat.lt_succ_of_le (total_filter_le_total _ _ _)
  cases found : cheapest (ofCovering p) p.clauses.length with
  | none =>
    have dear := least known hknown
    rw [found] at dear
    exact absurd (Nat.lt_of_lt_of_le below dear) (Nat.lt_irrefl _)
  | some s =>
    obtain ⟨_, chosen, nodup, sub, marks, places, price⟩ := answers.stands s found
    have same := picked_places_perm nodup sub
    rw [← places] at same
    refine ⟨s.places, by rw [branchAndBound, found]; rfl, ?_, fun other meets => ?_⟩
    · refine mark_picked.mp fun row hrow => ?_
      obtain ⟨k, hk, marked⟩ := mark_scarcestFirst.mp marks row hrow
      exact ⟨k, same.mem_iff.mpr hk, marked⟩
    · have cheap := least other meets
      rw [found] at cheap
      have cost : p.cost s.places = s.price := by
        rw [← cost_picked, price]
        exact total_perm (same.map _)
      exact cost ▸ cheap

end Solver

namespace Cover

variable {is : List Implicant} {minterms places : List Nat} {m : Nat} {solve : Solver}

def picked (is : List Implicant) (places : List Nat) : List Implicant :=
  ((Candidate.ofList is).filter fun c => places.contains c.place).map (·.implicant)

theorem picked_sublist (is : List Implicant) (places : List Nat) :
    (picked is places).Sublist is := by
  have part : ((Candidate.ofList is).filter fun c => places.contains c.place).Sublist
      (Candidate.ofList is) := List.filter_sublist
  simpa only [picked, Candidate.map_implicant_ofList] using part.map (·.implicant)

theorem mem_picked {i : Implicant} :
    i ∈ picked is places ↔ ∃ place ∈ places, is[place]? = some i := by
  simp only [picked, List.mem_map, List.mem_filter, List.contains_iff_mem]
  constructor
  · rintro ⟨c, ⟨hc, member⟩, rfl⟩
    exact ⟨c.place, member, Candidate.mem_ofList.mp hc⟩
  · rintro ⟨place, member, entry⟩
    exact ⟨⟨place, i⟩, ⟨Candidate.mem_ofList.mpr entry, member⟩, rfl⟩

theorem cost_ofImplicants (is : List Implicant) (minterms places : List Nat) :
    (Covering.ofImplicants is minterms).cost places = Implicant.sumPrice (picked is places) := by
  simp [Covering.cost, Covering.ofImplicants, Implicant.sumPrice, picked, Candidate.ofList,
    List.zipIdx_map, List.filter_map, Function.comp_def]

theorem meets_ofImplicants : (Covering.ofImplicants is minterms).Meets places ↔
    ∀ m ∈ minterms, Implicant.sumCovers (picked is places) m = true := by
  simp only [Covering.Meets, Covering.ofImplicants, List.mem_map, forall_exists_index, and_imp,
    forall_apply_eq_imp_iff₂]
  refine forall₂_congr fun m _ => ?_
  simp only [Implicant.sumCovers, List.any_eq_true, picked, List.mem_map, List.mem_filter,
    List.contains_iff_mem]
  constructor
  · rintro ⟨place, ⟨c, ⟨hc, covers⟩, rfl⟩, member⟩
    exact ⟨c.implicant, ⟨c, ⟨hc, member⟩, rfl⟩, covers⟩
  · rintro ⟨i, ⟨c, ⟨hc, member⟩, rfl⟩, covers⟩
    exact ⟨c.place, ⟨c, ⟨hc, covers⟩, rfl⟩, member⟩

theorem picked_all (is : List Implicant) : picked is (List.range is.length) = is := by
  have all : ((Candidate.ofList is).filter fun c => (List.range is.length).contains c.place) =
      Candidate.ofList is := by
    refine List.filter_eq_self.mpr fun c hc => ?_
    have bound := (List.getElem?_eq_some_iff.mp (Candidate.mem_ofList.mp hc)).1
    simpa using bound
  rw [picked, all, Candidate.map_implicant_ofList]

theorem solvable (covered : ∀ m ∈ minterms, is.any (·.covers m) = true) :
    ∃ places, (Covering.ofImplicants is minterms).Meets places :=
  ⟨List.range is.length, meets_ofImplicants.mpr fun m hm => by
    rw [picked_all]
    exact covered m hm⟩

theorem exact_of_solve (some : minterms ≠ []) (covered : ∀ m ∈ minterms, is.any (·.covers m) = true)
    (answer : solve (.ofImplicants is minterms) = .some places) :
    exact is minterms solve = .ok (picked is places) := by
  have none : minterms.find? (fun m => !is.any (·.covers m)) = none :=
    List.find?_eq_none.mpr fun m hm => by simp [covered m hm]
  rw [exact, if_neg some, none]
  simp only [answer]
  rfl

theorem eq_picked_of_exact {chosen : List Implicant}
    (answer : exact is minterms solve = .ok chosen) : ∃ places, chosen = picked is places := by
  unfold exact at answer
  split at answer
  · cases answer
    exact ⟨[], by simp [picked]⟩
  · split at answer
    · cases answer
    · split at answer
      · cases answer
        exact ⟨_, rfl⟩
      · cases answer

theorem nodup_exact {chosen : List Implicant} (once : (is.map (·.pattern)).Nodup)
    (answer : exact is minterms solve = .ok chosen) : (chosen.map (·.pattern)).Nodup := by
  obtain ⟨places, rfl⟩ := eq_picked_of_exact answer
  exact once.sublist ((picked_sublist is places).map _)

theorem exact_covers (sound : solve.Sound) (covered : ∀ m ∈ minterms, is.any (·.covers m) = true) :
    ∃ chosen, exact is minterms solve = .ok chosen ∧ chosen.Sublist is ∧
      ∀ m ∈ minterms, Implicant.sumCovers chosen m = true := by
  by_cases none : minterms = []
  · subst none
    exact ⟨[], rfl, List.nil_sublist _, fun _ hm => (nomatch hm)⟩
  · obtain ⟨places, answer, meets⟩ := sound _ (solvable covered)
    exact ⟨_, exact_of_solve none covered answer, picked_sublist is places,
      meets_ofImplicants.mp meets⟩

/-- With an optimal solver no other choice of the implicants that covers the minterms is cheaper. -/
theorem exact_least (optimal : solve.Optimal)
    (covered : ∀ m ∈ minterms, is.any (·.covers m) = true) :
    ∃ chosen, exact is minterms solve = .ok chosen ∧ ∀ places,
      (∀ m ∈ minterms, Implicant.sumCovers (picked is places) m = true) →
        Implicant.sumPrice chosen ≤ Implicant.sumPrice (picked is places) := by
  by_cases none : minterms = []
  · subst none
    exact ⟨[], rfl, fun _ _ => Nat.zero_le _⟩
  · obtain ⟨places, answer, _, least⟩ := optimal _ (solvable covered)
    refine ⟨_, exact_of_solve none covered answer, fun other covers => ?_⟩
    rw [← cost_ofImplicants is minterms, ← cost_ofImplicants is minterms]
    exact least other (meets_ofImplicants.mpr covers)

end Cover

end Switching
