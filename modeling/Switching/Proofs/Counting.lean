import Mathlib.Algebra.BigOperators.Group.Finset.Basic
import Switching.Counting

/-! Totals of lists and of their parts, and the parts themselves. -/
namespace Switching

@[simp]
theorem total_nil : total [] = 0 := rfl

@[simp]
theorem total_cons (n : Nat) (ns : List Nat) : total (n :: ns) = n + total ns := rfl

theorem total_count {α : Type} [DecidableEq α] {kinds as : List α} (nodup : kinds.Nodup)
    (known : ∀ a ∈ as, a ∈ kinds) : total (kinds.map fun k => as.count k) = as.length := by
  have counted : ∀ a ∈ (as : Multiset α), a ∈ kinds.toFinset :=
    fun a ha => List.mem_toFinset.mpr (known a ha)
  have added : ∀ ns : List Nat, total ns = ns.sum := by
    intro ns
    induction ns with
    | nil => rfl
    | cons n ns ih => rw [total_cons, List.sum_cons, ih]
  have sum := Multiset.sum_count_eq_card counted
  rw [List.sum_toFinset _ nodup] at sum
  simpa [added] using sum

theorem total_perm {ms ns : List Nat} (h : ms.Perm ns) : total ms = total ns := by
  induction h with
  | nil => rfl
  | cons n _ ih => rw [total_cons, total_cons, ih]
  | swap m n ns =>
    simp only [total_cons]
    omega
  | trans _ _ first second => exact first.trans second

section Filter

variable {α : Type} (f : α → Nat) (few some : α → Bool) {as : List α} {a : α}

theorem total_filter_le (h : ∀ a ∈ as, few a = true → some a = true) :
    total ((as.filter few).map f) ≤ total ((as.filter some).map f) := by
  induction as with
  | nil => exact Nat.le_refl _
  | cons b bs ih =>
    have rest := ih fun a ha => h a (List.mem_cons_of_mem _ ha)
    have head := h b (List.mem_cons_self ..)
    cases hf : few b <;> cases hs : some b <;> simp_all
    omega

theorem total_filter_add_le (ha : a ∈ as) (hf : few a = false) (hs : some a = true)
    (h : ∀ a ∈ as, few a = true → some a = true) :
    f a + total ((as.filter few).map f) ≤ total ((as.filter some).map f) := by
  induction as with
  | nil => cases ha
  | cons b bs ih =>
    have tail := fun c hc => h c (List.mem_cons_of_mem b hc)
    rcases List.mem_cons.mp ha with rfl | ha
    · have rest := total_filter_le f few some tail
      simp_all
    · have rest := ih ha tail
      have head := h b (List.mem_cons_self ..)
      cases hf : few b <;> cases hs : some b <;> simp_all <;> omega

theorem total_filter_or_le (few some : α → Bool) (as : List α) :
    total ((as.filter fun a => few a || some a).map f) ≤
      total ((as.filter few).map f) + total ((as.filter some).map f) := by
  induction as with
  | nil => exact Nat.le_refl _
  | cons b bs ih => cases hf : few b <;> cases hs : some b <;> simp_all <;> omega

theorem total_filter_le_total (few : α → Bool) (as : List α) :
    total ((as.filter few).map f) ≤ total (as.map f) := by
  have whole := total_filter_le f few (fun _ => true) fun a (_ : a ∈ as) _ => rfl
  have all : as.filter (fun _ => true) = as := List.filter_eq_self.mpr fun _ _ => rfl
  rwa [all] at whole

end Filter

theorem filter_mem_eq_of_sublist {α : Type} [DecidableEq α] {few as : List α} (nodup : as.Nodup)
    (sub : few.Sublist as) : as.filter (· ∈ few) = few := by
  induction sub with
  | slnil => rfl
  | @cons few as a sub ih =>
    obtain ⟨fresh, nodup⟩ := List.nodup_cons.mp nodup
    have out : a ∉ few := fun ha => fresh (sub.subset ha)
    rw [List.filter_cons_of_neg (by simpa using out), ih nodup]
  | @cons_cons few as a sub ih =>
    obtain ⟨fresh, nodup⟩ := List.nodup_cons.mp nodup
    have rest : as.filter (· ∈ a :: few) = as.filter (· ∈ few) := by
      apply List.filter_congr
      intro b hb
      have other : b ≠ a := fun same => fresh (same ▸ hb)
      simp [other]
    rw [List.filter_cons_of_pos (by simp), rest, ih nodup]

end Switching
