import Switching.Proofs.Cover.Greedy
import Switching.Proofs.PrimePattern

/-! The cover that is chosen step by step, by the places of the implicants in their list. A place is
taken first exactly if some minterm has no other cover, no place is taken twice, and nothing is left
that any implicant could cover. The implicants need not be prime, and may be listed repeatedly. -/
namespace Switching

namespace Candidate

variable {cs : List Candidate} {is : List Implicant} {minterms : List Nat} {c : Candidate}
  {m place : Nat}

theorem nodup_places (sub : cs ⊆ ofList is) (once : cs.Nodup) : (cs.map (·.place)).Nodup :=
  once.map_on fun _ hc _ hd same => eq_of_place (sub hc) (sub hd) same

theorem map_getElem?_places (sub : cs ⊆ ofList is) :
    (cs.map (·.place)).map (is[·]?) = (cs.map (·.implicant)).map some := by
  simp only [List.map_map]
  exact List.map_congr_left fun c hc => mem_ofList.mp (sub hc)

theorem sole?_eq_some (once : cs.Nodup) :
    sole? cs m = some c ↔
      c ∈ cs ∧ c.covers m = true ∧ ∀ d ∈ cs, d.covers m = true → d = c := by
  constructor
  · intro sole
    obtain ⟨hc, covers⟩ := mem_of_sole? sole
    refine ⟨hc, covers, fun d hd other => ?_⟩
    unfold sole? at sole
    split at sole
    · rename_i e only
      have member : d ∈ cs.filter (·.covers m) := List.mem_filter.mpr ⟨hd, other⟩
      rw [only, List.mem_singleton] at member
      exact member.trans (Option.some.inj sole)
    · cases sole
  · rintro ⟨hc, covers, unique⟩
    have only : (cs.filter (·.covers m)).Perm [c] := by
      refine (List.perm_ext_iff_of_nodup (once.filter _) (List.nodup_singleton c)).mpr fun d => ?_
      simp only [List.mem_filter, List.mem_singleton]
      constructor
      · exact fun h => unique d h.1 h.2
      · rintro rfl
        exact ⟨hc, covers⟩
    simp only [sole?, List.perm_singleton.mp only]

end Candidate

namespace Cover

open Candidate

variable {is : List Implicant} {minterms : List Nat} {width m place : Nat}

def essentialPlaces (is : List Implicant) (minterms : List Nat) : List Nat :=
  (essentials is minterms).map (·.place)

def followingPlaces (is : List Implicant) (minterms : List Nat) : List Nat :=
  (followers is minterms).map (·.place)

/-- The implicant at the place covers the minterm, and no other place in the list does. -/
def SoleCover (is : List Implicant) (place m : Nat) : Prop :=
  (∃ i, is[place]? = some i ∧ i.covers m = true) ∧
    ∀ other j, is[other]? = some j → j.covers m = true → other = place

theorem soleCover_iff :
    SoleCover is place m ↔ ∃ c, sole? (ofList is) m = some c ∧ c.place = place := by
  simp only [sole?_eq_some (nodup_ofList is)]
  constructor
  · rintro ⟨⟨i, entry, covers⟩, unique⟩
    refine ⟨⟨place, i⟩, ⟨mem_ofList.mpr entry, covers, fun d hd other => ?_⟩, rfl⟩
    have same := unique d.place d.implicant (mem_ofList.mp hd) other
    exact eq_of_place hd (mem_ofList.mpr entry) same
  · rintro ⟨c, ⟨hc, covers, unique⟩, rfl⟩
    refine ⟨⟨c.implicant, mem_ofList.mp hc, covers⟩, fun other j entry also => ?_⟩
    exact congrArg (·.place) (unique ⟨other, j⟩ (mem_ofList.mpr entry) also)

theorem mem_essentialPlaces :
    place ∈ essentialPlaces is minterms ↔ ∃ m ∈ minterms, SoleCover is place m := by
  simp only [essentialPlaces, essentials, essential, List.mem_map, List.mem_eraseDups,
    List.mem_filterMap, soleCover_iff]
  constructor
  · rintro ⟨c, ⟨m, hm, sole⟩, rfl⟩
    exact ⟨m, hm, c, sole, rfl⟩
  · rintro ⟨m, hm, c, sole, rfl⟩
    exact ⟨c, ⟨m, hm, sole⟩, rfl⟩

/-- What is chosen step by step from any implicants that were built from what they cover: all of the
minterms that can be covered, and no place twice. The places without which some minterm is not
covered come first, and only they come first. -/
theorem greedy_selects
    (built : ∀ i ∈ is, ∀ m, m ∈ i.minterms ↔ m < 2 ^ width ∧ i.covers m = true)
    (range : ∀ m ∈ minterms, m < 2 ^ width) :
    (greedy is minterms).uncovered = minterms.filter (fun m => !is.any (·.covers m)) ∧
      (∀ m ∈ minterms, is.any (·.covers m) = true →
        ∃ i ∈ (greedy is minterms).chosen, i.covers m = true) ∧
      (greedy is minterms).chosen.map some =
        (essentialPlaces is minterms ++ followingPlaces is minterms).map (is[·]?) ∧
      (essentialPlaces is minterms ++ followingPlaces is minterms).Nodup ∧
      ∀ place, place ∈ essentialPlaces is minterms ↔ ∃ m ∈ minterms, SoleCover is place m := by
  have covered : Built is minterms := fun i hi m hm =>
    (built i hi m).trans (and_iff_right (range m hm))
  have places : essentialPlaces is minterms ++ followingPlaces is minterms =
      (essentials is minterms ++ followers is minterms).map (·.place) := List.map_append.symm
  refine ⟨greedy_uncovered covered, fun m hm some => ?_, ?_, ?_, fun place => mem_essentialPlaces⟩
  · exact List.any_eq_true.mp (greedy_covers covered hm some)
  · simp only [places, map_getElem?_places (taken_subset is minterms), greedy_chosen]
  · simp only [places]
    exact nodup_places (taken_subset is minterms) (nodup_taken is minterms)

theorem greedy_selects_cycle :
    let texts := ["00-", "0-1", "-11", "11-", "1-0", "1-0", "-00", "010"]
    let is : List Implicant := texts.map fun s =>
      ⟨.ofText s, (Pattern.ofText s).minterms 3, false⟩
    let minterms := [7, 5, 0, 1, 2, 3, 6, 4, 0]
    (∀ i ∈ is, ∀ m, m ∈ i.minterms ↔ m < 2 ^ 3 ∧ i.covers m = true) ∧
      (∀ m ∈ minterms, m < 2 ^ 3) ∧ (greedy is minterms).uncovered = [5] ∧
      (∃ i ∈ (greedy is minterms).chosen, i.covers 6 = true) ∧
      (essentialPlaces is minterms ++ followingPlaces is minterms).Nodup ∧
      7 ∈ essentialPlaces is minterms := by
  intro texts is minterms
  have built : ∀ i ∈ is, ∀ m, m ∈ i.minterms ↔ m < 2 ^ 3 ∧ i.covers m = true := by
    intro i hi m
    obtain ⟨s, _, rfl⟩ := List.mem_map.mp hi
    exact Pattern.mem_minterms
  have range : ∀ m ∈ minterms, m < 2 ^ 3 := by decide
  obtain ⟨uncovered, covers, _, once, essential⟩ := greedy_selects built range
  have sole : SoleCover is 7 2 := by
    refine ⟨⟨_, rfl, by decide⟩, fun other j entry covers => ?_⟩
    have below : other < 8 := (List.getElem?_eq_some_iff.mp entry).1
    have only : ∀ place < 8, ∀ j ∈ is[place]?, j.covers 2 = true → place = 7 := by decide
    exact only other below j entry covers
  exact ⟨built, range, uncovered.trans (by decide), covers 6 (by decide) (by decide), once,
    (essential 7).mpr ⟨2, by decide, sole⟩⟩

end Cover

end Switching
