import Mathlib.Data.List.Nodup
import Switching.Cover.Greedy

/-! The cover that is chosen step by step leaves a minterm uncovered only if no implicant at hand
covers it, and it takes no implicant twice. -/
namespace Switching

namespace Candidate

variable {cs : List Candidate} {left : List Nat} {c d : Candidate} {m : Nat}

theorem mem_of_leader? (h : leader? left cs = some c) : c ∈ cs := by
  induction cs generalizing c with
  | nil => cases h
  | cons d ds ih =>
    rw [leader?] at h
    split at h
    · exact Option.some.inj h ▸ List.mem_cons_self ..
    · rename_i e he
      split at h
      · exact Option.some.inj h ▸ List.mem_cons_self ..
      · exact Option.some.inj h ▸ List.mem_cons_of_mem _ (ih he)

theorem leader?_eq_none (h : leader? left cs = none) : cs = [] := by
  cases cs with
  | nil => rfl
  | cons d ds =>
    rw [leader?] at h
    split at h
    · cases h
    · split at h <;> cases h

theorem gain_le_leader (h : leader? left cs = some c) (hd : d ∈ cs) :
    d.gain left ≤ c.gain left := by
  induction cs generalizing c with
  | nil => cases hd
  | cons e es ih =>
    rw [leader?] at h
    split at h
    · rename_i none
      rw [leader?_eq_none none] at hd
      exact Nat.le_of_eq (by rw [List.mem_singleton.mp hd, Option.some.inj h])
    · rename_i f hf
      split at h
      · rename_i ahead
        rcases List.mem_cons.mp hd with rfl | hd
        · exact Nat.le_of_eq (congrArg (gain left) (Option.some.inj h))
        · exact Option.some.inj h ▸ Nat.le_trans (ih hf hd) ahead
      · rename_i behind
        rcases List.mem_cons.mp hd with rfl | hd
        · exact Option.some.inj h ▸ Nat.le_of_not_le behind
        · exact Option.some.inj h ▸ ih hf hd

theorem covers_eq_false (h : c.gain left = 0) (hm : m ∈ left) : c.covers m = false := by
  have none := List.countP_eq_zero.mp h m hm
  simpa using none

theorem greedy_subset (cs : List Candidate) (left : List Nat) : (greedy cs left).1 ⊆ cs := by
  fun_induction greedy cs left with
  | case1 => exact List.nil_subset _
  | case2 =>
    rename_i leads _ _ ih
    intro d hd
    rcases List.mem_cons.mp hd with rfl | hd
    · exact mem_of_leader? leads
    · exact List.mem_of_mem_filter (ih hd)
  | case3 => exact List.nil_subset _

theorem greedy_left (cs : List Candidate) (left : List Nat) :
    (greedy cs left).2 = left.filter fun m => !cs.any (·.covers m) := by
  fun_induction greedy cs left with
  | case1 cs left none =>
    rw [leader?_eq_none none]
    simp
  | case2 cs left c leads gains rest ih =>
    change rest.2 = _
    rw [ih, leaves, List.filter_filter]
    refine List.filter_congr fun m _ => ?_
    -- what is covered is covered by the leader or by another candidate
    rw [Bool.eq_iff_iff]
    simp only [others, Bool.and_eq_true, Bool.not_eq_true', List.any_eq_false, List.mem_filter]
    constructor
    · rintro ⟨rest, leader⟩ d hd
      by_cases same : d = c
      · simp [same, leader]
      · exact rest d ⟨hd, by simpa using same⟩
    · intro all
      exact ⟨fun d hd => all d hd.1, by simpa using all c (mem_of_leader? leads)⟩
  | case3 cs left c leads gains =>
    change left = _
    refine (List.filter_eq_self.mpr fun m hm => ?_).symm
    simp only [Bool.not_eq_true', List.any_eq_false, Bool.not_eq_true]
    intro d hd
    have := gain_le_leader leads hd
    exact covers_eq_false (by omega) hm

theorem exists_greedy_covers (hm : m ∈ left) (out : m ∉ (greedy cs left).2) :
    ∃ c ∈ (greedy cs left).1, c.covers m = true := by
  fun_induction greedy cs left with
  | case1 => exact absurd hm out
  | case2 cs left c leads gains rest ih =>
    by_cases leader : c.covers m = true
    · exact ⟨c, List.mem_cons_self .., leader⟩
    · have stays : m ∈ c.leaves left := List.mem_filter.mpr ⟨hm, by simpa using leader⟩
      obtain ⟨d, hd, covers⟩ := ih stays out
      exact ⟨d, List.mem_cons_of_mem _ hd, covers⟩
  | case3 => exact absurd hm out

theorem mem_of_sole? (h : sole? cs m = some c) : c ∈ cs ∧ c.covers m = true := by
  rw [sole?] at h
  split at h
  · rename_i d only
    have member : d ∈ cs.filter (·.covers m) := only ▸ List.mem_singleton.mpr rfl
    exact Option.some.inj h ▸ List.mem_filter.mp member
  · cases h

theorem essential_subset (cs : List Candidate) (minterms : List Nat) :
    essential cs minterms ⊆ cs := by
  intro c hc
  obtain ⟨m, _, sole⟩ := List.mem_filterMap.mp (List.mem_eraseDups.mp hc)
  exact (mem_of_sole? sole).1

theorem mem_ofList {is : List Implicant} :
    c ∈ ofList is ↔ is[c.place]? = some c.implicant := by
  constructor
  · intro h
    obtain ⟨e, he, rfl⟩ := List.mem_map.mp h
    exact List.mem_zipIdx_iff_getElem?.mp he
  · intro h
    exact List.mem_map.mpr ⟨(c.implicant, c.place), List.mem_zipIdx_iff_getElem?.mpr h, rfl⟩

theorem exists_of_mem {is : List Implicant} {i : Implicant} (h : i ∈ is) :
    ∃ c ∈ ofList is, c.implicant = i := by
  obtain ⟨place, hp⟩ := List.mem_iff_getElem?.mp h
  exact ⟨⟨place, i⟩, mem_ofList.mpr hp, rfl⟩

theorem implicant_mem {is : List Implicant} (h : c ∈ ofList is) : c.implicant ∈ is :=
  List.mem_of_getElem? (mem_ofList.mp h)

theorem eq_of_place {is : List Implicant} (hc : c ∈ ofList is) (hd : d ∈ ofList is)
    (same : c.place = d.place) : c = d := by
  have entries := mem_ofList.mp hc
  simp only [same, mem_ofList.mp hd, Option.some.injEq] at entries
  cases c
  cases d
  simp_all

theorem map_implicant_ofList (is : List Implicant) : (ofList is).map (·.implicant) = is := by
  rw [ofList, List.map_map]
  exact List.zipIdx_map_fst 0 is

theorem map_place_ofList (is : List Implicant) :
    (ofList is).map (·.place) = List.range is.length := by
  rw [ofList, List.map_map, List.range_eq_range']
  exact List.zipIdx_map_snd 0 is

theorem nodup_ofList (is : List Implicant) : (ofList is).Nodup :=
  .of_map (·.place) (map_place_ofList is ▸ List.nodup_range)

theorem nodup_patterns {is : List Implicant} (once : (is.map (·.pattern)).Nodup)
    (nodup : cs.Nodup) (sub : cs ⊆ ofList is) :
    ((cs.map (·.implicant)).map (·.pattern)).Nodup := by
  have all : ((ofList is).map fun c => c.implicant.pattern).Nodup := by
    rw [← map_implicant_ofList is, List.map_map] at once
    exact once
  rw [List.map_map]
  apply nodup.map_on
  intro c hc d hd same
  exact List.inj_on_of_nodup_map all (sub hc) (sub hd) same

theorem nodup_eraseDups (cs : List Candidate) : cs.eraseDups.Nodup := by
  match cs with
  | [] => exact List.nodup_nil
  | c :: cs =>
    rw [List.eraseDups_cons, List.nodup_cons]
    constructor
    · simp [List.mem_eraseDups]
    · exact nodup_eraseDups _
  termination_by cs.length
  decreasing_by exact Nat.lt_succ_of_le (List.length_filter_le _ _)

theorem nodup_greedy (nodup : cs.Nodup) (left : List Nat) : (greedy cs left).1.Nodup := by
  fun_induction greedy cs left with
  | case1 => exact List.nodup_nil
  | case2 cs left c leads gains rest ih =>
    refine List.nodup_cons.mpr ⟨fun again => ?_, ih (nodup.filter _)⟩
    have other := (List.mem_filter.mp (greedy_subset _ _ again)).2
    simp at other
  | case3 => exact List.nodup_nil

theorem any_ofList (is : List Implicant) (m : Nat) :
    (ofList is).any (·.covers m) = is.any (·.covers m) := by
  rw [Bool.eq_iff_iff]
  simp only [List.any_eq_true, covers]
  constructor
  · rintro ⟨c, hc, h⟩
    exact ⟨c.implicant, implicant_mem hc, h⟩
  · rintro ⟨i, hi, h⟩
    obtain ⟨c, hc, rfl⟩ := exists_of_mem hi
    exact ⟨c, hc, h⟩

end Candidate

namespace Cover

open Candidate

variable {is : List Implicant} {minterms : List Nat} {m : Nat}

def essentials (is : List Implicant) (minterms : List Nat) : List Candidate :=
  essential (ofList is) minterms

def followers (is : List Implicant) (minterms : List Nat) : List Candidate :=
  (Candidate.greedy ((ofList is).filter (!(essentials is minterms).contains ·))
    (minterms.filter fun m => !(essentials is minterms).any (·.holds m))).1

theorem greedy_chosen (is : List Implicant) (minterms : List Nat) :
    (greedy is minterms).chosen =
      (essentials is minterms ++ followers is minterms).map (·.implicant) := rfl

theorem taken_subset (is : List Implicant) (minterms : List Nat) :
    essentials is minterms ++ followers is minterms ⊆ ofList is := by
  intro c hc
  rcases List.mem_append.mp hc with hc | hc
  · exact essential_subset _ _ hc
  · exact List.mem_of_mem_filter (greedy_subset _ _ hc)

theorem nodup_taken (is : List Implicant) (minterms : List Nat) :
    (essentials is minterms ++ followers is minterms).Nodup := by
  apply (nodup_eraseDups _).append (nodup_greedy ((nodup_ofList is).filter _) _)
  intro c early late
  have other := (List.mem_filter.mp (greedy_subset _ _ late)).2
  have first : c ∈ essentials is minterms := early
  simp [first] at other

theorem greedy_chosen_subset (is : List Implicant) (minterms : List Nat) :
    (greedy is minterms).chosen ⊆ is := by
  intro i hi
  obtain ⟨c, hc, rfl⟩ := List.mem_map.mp (greedy_chosen is minterms ▸ hi)
  exact implicant_mem (taken_subset is minterms hc)

theorem nodup_greedy_chosen (once : (is.map (·.pattern)).Nodup) (minterms : List Nat) :
    ((greedy is minterms).chosen.map (·.pattern)).Nodup :=
  nodup_patterns once (nodup_taken is minterms) (taken_subset is minterms)

/-- The minterms that an implicant was built from are those that it covers. -/
def Built (is : List Implicant) (minterms : List Nat) : Prop :=
  ∀ i ∈ is, ∀ m ∈ minterms, m ∈ i.minterms ↔ i.covers m = true

theorem Built.holds {c : Candidate} (built : Built is minterms) (hc : c ∈ ofList is)
    (hm : m ∈ minterms) : c.holds m = c.covers m := by
  rw [Bool.eq_iff_iff, Candidate.holds, List.contains_iff_mem]
  exact built _ (implicant_mem hc) m hm

theorem greedy_uncovered (built : Built is minterms) :
    (greedy is minterms).uncovered = minterms.filter fun m => !is.any (·.covers m) := by
  rw [greedy, greedy_left, List.filter_filter]
  refine List.filter_congr fun m hm => ?_
  rw [← any_ofList, Bool.eq_iff_iff]
  simp only [Bool.and_eq_true, Bool.not_eq_true', List.any_eq_false, List.mem_filter]
  constructor
  · rintro ⟨others, first⟩ c hc
    by_cases early : c ∈ essential (ofList is) minterms
    · exact built.holds hc hm ▸ first c early
    · exact others c ⟨hc, by simpa using early⟩
  · intro all
    refine ⟨fun c hc => all c hc.1, fun c hc => ?_⟩
    have member := essential_subset _ _ hc
    exact built.holds member hm ▸ all c member

theorem greedy_covers (built : Built is minterms) (hm : m ∈ minterms)
    (some : is.any (·.covers m) = true) :
    Implicant.sumCovers (greedy is minterms).chosen m = true := by
  have out : m ∉ (greedy is minterms).uncovered := by
    rw [greedy_uncovered built]
    simp [List.mem_filter, some]
  simp only [Implicant.sumCovers, List.any_eq_true]
  by_cases first : (essential (ofList is) minterms).any (·.holds m) = true
  · obtain ⟨c, hc, holds⟩ := List.any_eq_true.mp first
    have covers : c.covers m = true := built.holds (essential_subset _ _ hc) hm ▸ holds
    exact ⟨c.implicant, List.mem_map_of_mem (List.mem_append_left _ hc), covers⟩
  · obtain ⟨c, hc, covers⟩ :=
      exists_greedy_covers (List.mem_filter.mpr ⟨hm, by simpa using first⟩) out
    exact ⟨c.implicant, List.mem_map_of_mem (List.mem_append_right _ hc), covers⟩

end Cover

end Switching
