import Mathlib.Algebra.Order.Field.Basic
import Mathlib.Data.List.Perm.Subperm
import Mathlib.NumberTheory.Harmonic.Defs
import Mathlib.Tactic.Linarith
import Mathlib.Tactic.Positivity
import Switching.Proofs.Cover.Places

/-! How far the cover that is chosen step by step can be from the smallest one. Whatever covers the
minterms that are left has a member that covers its share of them, and the leader covers no less. So
what the leader is taken for makes the harmonic number of the minterms that are left go down enough
to pay for it. -/
namespace Switching

theorem div_le_harmonic_sub {left gained bound : Nat} (within : left + gained ≤ bound) :
    (gained : ℚ) / bound ≤ harmonic (left + gained) - harmonic left := by
  induction gained with
  | zero => simp
  | succ gained ih =>
    have rest := ih (Nat.le_of_succ_le within)
    have last : (bound : ℚ)⁻¹ ≤ ((left + gained + 1 : Nat) : ℚ)⁻¹ := by
      apply inv_anti₀
      · exact_mod_cast Nat.succ_pos _
      · exact_mod_cast within
    rw [← Nat.add_assoc, harmonic_succ, Nat.cast_succ, add_div, one_div]
    linarith

theorem harmonic_nonneg (n : Nat) : 0 ≤ harmonic n :=
  Finset.sum_nonneg fun _ _ => by positivity

/-- One more implicant is paid for by what the harmonic number goes down. -/
theorem one_add_harmonic_le {left gained : Nat} (some : 0 < left + gained) {rivals others : Nat}
    (share : left + gained ≤ rivals * gained) (fewer : others ≤ rivals) :
    1 + harmonic left * others ≤ harmonic (left + gained) * rivals := by
  have positive : (0 : ℚ) < (left + gained : Nat) := by exact_mod_cast some
  have paid : 1 ≤ (gained : ℚ) / (left + gained : Nat) * rivals := by
    rw [div_mul_eq_mul_div, one_le_div positive, mul_comm]
    exact_mod_cast share
  have drop : (gained : ℚ) / (left + gained : Nat) * rivals ≤
      (harmonic (left + gained) - harmonic left) * rivals :=
    mul_le_mul_of_nonneg_right (div_le_harmonic_sub (Nat.le_refl _)) (Nat.cast_nonneg rivals)
  have rest : harmonic left * others ≤ harmonic left * rivals :=
    mul_le_mul_of_nonneg_left (by exact_mod_cast fewer) (harmonic_nonneg left)
  rw [sub_mul] at drop
  linarith

namespace Candidate

variable {cs rivals : List Candidate} {left : List Nat} {c d : Candidate} {greatest : Nat}

def Suffice (cs : List Candidate) (left : List Nat) : Prop :=
  ∀ m ∈ left, ∃ c ∈ cs, c.covers m = true

theorem mem_others : d ∈ c.others cs ↔ d ∈ cs ∧ d ≠ c := by
  rw [others, List.mem_filter, bne_iff_ne]

theorem Suffice.leaves (suffice : Suffice rivals left) (c : Candidate) :
    Suffice (c.others rivals) (c.leaves left) := by
  intro m hm
  obtain ⟨stays, out⟩ := List.mem_filter.mp hm
  obtain ⟨d, hd, covers⟩ := suffice m stays
  refine ⟨d, mem_others.mpr ⟨hd, ?_⟩, covers⟩
  rintro rfl
  simp [covers] at out

/-- What suffices has a member that covers its share. -/
theorem Suffice.length_le (suffice : Suffice rivals left)
    (most : ∀ d ∈ rivals, d.gain left ≤ greatest) : left.length ≤ rivals.length * greatest := by
  induction rivals generalizing left with
  | nil =>
    have none : left = [] := by
      refine List.eq_nil_iff_forall_not_mem.mpr fun m hm => ?_
      obtain ⟨d, hd, _⟩ := suffice m hm
      cases hd
    simp [none]
  | cons d ds ih =>
    have rest : (d.leaves left).length ≤ ds.length * greatest := by
      apply ih
      · intro m hm
        obtain ⟨e, he, covers⟩ := suffice.leaves d m hm
        obtain ⟨he, other⟩ := mem_others.mp he
        exact ⟨e, List.mem_of_ne_of_mem other he, covers⟩
      · intro e he
        have less : e.gain (d.leaves left) ≤ e.gain left := List.filter_sublist.countP_le
        exact Nat.le_trans less (most e (List.mem_cons_of_mem _ he))
    have parts := d.gain_add_length_leaves left
    have first := most d (List.mem_cons_self ..)
    rw [List.length_cons, Nat.succ_mul]
    omega

theorem length_greedy_le (sub : rivals ⊆ cs) (suffice : Suffice rivals left) :
    ((greedy cs left).1.length : ℚ) ≤ harmonic left.length * rivals.length := by
  -- what is taken is struck off the rivals, too, and the others suffice for what it leaves
  fun_induction greedy cs left generalizing rivals with
  | case1 cs left none =>
    exact mul_nonneg (harmonic_nonneg _) (Nat.cast_nonneg _)
  | case2 cs left c leads gains rest =>
    rename_i ih
    have others : c.others rivals ⊆ c.others cs := by
      intro d hd
      obtain ⟨hd, other⟩ := mem_others.mp hd
      exact mem_others.mpr ⟨sub hd, other⟩
    have taken := ih others (suffice.leaves c)
    have parts := c.gain_add_length_leaves left
    have share := suffice.length_le fun d hd => gain_le_leader leads (sub hd)
    have fewer : (c.others rivals).length ≤ rivals.length := List.length_filter_le ..
    rw [← parts, Nat.add_comm] at share ⊢
    have paid := one_add_harmonic_le (by omega) share fewer
    rw [List.length_cons, Nat.cast_succ]
    linarith
  | case3 cs left c leads gains =>
    exact mul_nonneg (harmonic_nonneg _) (Nat.cast_nonneg _)

end Candidate

namespace Cover

open Candidate

variable {is : List Implicant} {minterms places : List Nat} {width m : Nat}

/-- The minterms that are left when the essential implicants have been taken. -/
def unsettled (is : List Implicant) (minterms : List Nat) : List Nat :=
  minterms.filter fun m => !(essentials is minterms).any (·.holds m)

def rivals (is : List Implicant) (minterms places : List Nat) : List Candidate :=
  ((ofList is).filter (!(essentials is minterms).contains ·)).filter (places.contains ·.place)

theorem mem_rivals {c : Candidate} : c ∈ rivals is minterms places ↔
    c ∈ ofList is ∧ c.place ∈ places ∧ c ∉ essentials is minterms := by
  simp [rivals, List.mem_filter]

theorem place_mem_essentialPlaces {c : Candidate} (hc : c ∈ ofList is) :
    c.place ∈ essentialPlaces is minterms ↔ c ∈ essentials is minterms := by
  constructor
  · intro first
    obtain ⟨d, hd, same⟩ := List.mem_map.mp first
    exact eq_of_place (essential_subset _ _ hd) hc same ▸ hd
  · exact fun first => List.mem_map_of_mem first

theorem length_rivals_le (is : List Implicant) (minterms places : List Nat) :
    (rivals is minterms places).length ≤
      (places.filter (· ∉ essentialPlaces is minterms)).length := by
  have sub : rivals is minterms places ⊆ ofList is := fun c hc => (mem_rivals.mp hc).1
  have once : ((rivals is minterms places).map (·.place)).Nodup :=
    nodup_places sub (((nodup_ofList is).filter _).filter _)
  rw [← List.length_map (·.place)]
  apply (once.subperm fun place hp => ?_).length_le
  obtain ⟨c, hc, rfl⟩ := List.mem_map.mp hp
  obtain ⟨known, listed, late⟩ := mem_rivals.mp hc
  rw [List.mem_filter, decide_eq_true_iff, place_mem_essentialPlaces known]
  exact ⟨listed, late⟩

theorem suffice_rivals (built : Built is minterms)
    (covered : ∀ m ∈ minterms, ∃ place ∈ places, ∃ i, is[place]? = some i ∧ i.covers m = true) :
    Suffice (rivals is minterms places) (unsettled is minterms) := by
  intro m hm
  obtain ⟨hm, left⟩ := List.mem_filter.mp hm
  obtain ⟨place, hp, i, entry, covers⟩ := covered m hm
  have known : ⟨place, i⟩ ∈ ofList is := mem_ofList.mpr entry
  refine ⟨⟨place, i⟩, mem_rivals.mpr ⟨known, hp, fun first => ?_⟩, covers⟩
  simp only [Bool.not_eq_true', List.any_eq_false] at left
  exact left _ first ((built.holds known hm).trans covers)

/-- What is chosen, from implicants that were built from what they cover, covers all minterms, and
what is taken for its gain is no more than any cover of them takes beside the essential implicants,
times the harmonic number of the minterms that these leave. -/
theorem greedy_harmonic
    (built : ∀ i ∈ is, ∀ m, m ∈ i.minterms ↔ m < 2 ^ width ∧ i.covers m = true)
    (range : ∀ m ∈ minterms, m < 2 ^ width)
    (covered : ∀ m ∈ minterms, ∃ place ∈ places, ∃ i, is[place]? = some i ∧ i.covers m = true) :
    (∀ m ∈ minterms, Implicant.sumCovers (greedy is minterms).chosen m = true) ∧
      (greedy is minterms).chosen.map some =
        (essentialPlaces is minterms ++ followingPlaces is minterms).map (is[·]?) ∧
      ((followingPlaces is minterms).length : ℚ) ≤ harmonic (unsettled is minterms).length *
        (places.filter (· ∉ essentialPlaces is minterms)).length := by
  have met : Built is minterms := fun i hi m hm =>
    (built i hi m).trans (and_iff_right (range m hm))
  refine ⟨fun m hm => greedy_covers met hm ?_, ?_, ?_⟩
  · obtain ⟨place, _, i, entry, covers⟩ := covered m hm
    exact List.any_eq_true.mpr ⟨i, List.mem_of_getElem? entry, covers⟩
  · rw [greedy_chosen, ← map_getElem?_places (taken_subset is minterms), List.map_append]
    rfl
  · have taken := length_greedy_le (List.filter_subset_self _) (suffice_rivals met covered)
    have few : ((rivals is minterms places).length : ℚ) ≤
        (places.filter (· ∉ essentialPlaces is minterms)).length := by
      exact_mod_cast length_rivals_le is minterms places
    rw [followingPlaces, List.length_map]
    exact taken.trans (mul_le_mul_of_nonneg_left few (harmonic_nonneg _))

/-- Six products in a cycle that three of them cover, and one that is the only one for 2. The two that
are taken first are opposite to each other, so a fourth one is needed. -/
theorem greedy_harmonic_cycle :
    let texts := ["00-", "11-", "0-1", "-11", "1-0", "-00", "010"]
    let is : List Implicant := texts.map fun s =>
      ⟨.ofText s, (Pattern.ofText s).minterms 3, false⟩
    let minterms := [0, 1, 2, 3, 4, 6, 7]
    (∀ i ∈ is, ∀ m, m ∈ i.minterms ↔ m < 2 ^ 3 ∧ i.covers m = true) ∧
      (∀ m ∈ minterms, m < 2 ^ 3) ∧
      (∀ m ∈ minterms, ∃ place ∈ [1, 2, 5, 6], ∃ i, is[place]? = some i ∧ i.covers m = true) ∧
      (unsettled is minterms).length = 6 ∧
      Implicant.sumCovers (greedy is minterms).chosen 4 = true ∧
      ((followingPlaces is minterms).length : ℚ) ≤ harmonic 6 * 3 := by
  intro texts is minterms
  have built : ∀ i ∈ is, ∀ m, m ∈ i.minterms ↔ m < 2 ^ 3 ∧ i.covers m = true := by
    intro i hi m
    obtain ⟨s, _, rfl⟩ := List.mem_map.mp hi
    exact Pattern.mem_minterms
  have range : ∀ m ∈ minterms, m < 2 ^ 3 := by decide
  have covered : ∀ m ∈ minterms,
      ∃ place ∈ [1, 2, 5, 6], ∃ i, is[place]? = some i ∧ i.covers m = true := by
    have found : ∀ m ∈ minterms, ∃ place ∈ [1, 2, 5, 6], ∃ i ∈ is[place]?, i.covers m = true := by
      decide
    exact found
  have six : (unsettled is minterms).length = 6 := by decide +kernel
  have three : ([1, 2, 5, 6].filter (· ∉ essentialPlaces is minterms)).length = 3 := by
    decide +kernel
  obtain ⟨covers, _, bound⟩ := greedy_harmonic built range covered
  rw [six, three] at bound
  exact ⟨built, range, covered, six, covers 4 (by decide), by exact_mod_cast bound⟩

end Cover

end Switching
