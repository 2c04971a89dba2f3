import Mathlib.Data.List.Sort
import Switching.OrderedSet

/-! The order of the members of a set: strictly ascending, so a set is determined by its members. -/
namespace Switching

variable {α : Type} [LinearOrder α]

theorem pairwise_insertOrdered {a : α} {bs : List α} (h : bs.Pairwise (· < ·)) :
    (insertOrdered a bs).Pairwise (· < ·) := by
  induction bs with
  | nil => simp [insertOrdered]
  | cons b bs ih =>
    obtain ⟨least, rest⟩ := List.pairwise_cons.mp h
    rw [insertOrdered]
    split
    · rename_i below
      refine List.pairwise_cons.mpr ⟨?_, h⟩
      intro c hc
      rcases List.mem_cons.mp hc with rfl | hc
      · exact below
      · exact below.trans (least c hc)
    · split
      · exact h
      · rename_i notBelow distinct
        refine List.pairwise_cons.mpr ⟨?_, ih rest⟩
        intro c hc
        rcases mem_insertOrdered.mp hc with rfl | hc
        · exact lt_of_le_of_ne (not_lt.mp notBelow) (Ne.symm distinct)
        · exact least c hc

theorem pairwise_orderedSet (as : List α) : (orderedSet as).Pairwise (· < ·) := by
  induction as with
  | nil => exact List.Pairwise.nil
  | cons a as ih => exact pairwise_insertOrdered ih

theorem orderedSet_eq {as bs : List α} (ascending : bs.Pairwise (· < ·))
    (same : ∀ x, x ∈ as ↔ x ∈ bs) : orderedSet as = bs :=
  (pairwise_orderedSet as).eq_of_mem_iff ascending fun x => mem_orderedSet.trans (same x)

end Switching
