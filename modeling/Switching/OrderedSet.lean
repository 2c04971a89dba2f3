/-!
Sets as ascending lists without repetition.
-/
namespace Switching

variable {α : Type} [LT α] [DecidableLT α] [DecidableEq α]

def insertOrdered (a : α) : List α → List α
  | [] => [a]
  | b :: bs =>
    if a < b then a :: b :: bs
    else if a = b then b :: bs
    else b :: insertOrdered a bs

def orderedSet (as : List α) : List α := as.foldr insertOrdered []

theorem mem_insertOrdered {a x : α} {bs : List α} : x ∈ insertOrdered a bs ↔ x = a ∨ x ∈ bs := by
  induction bs with
  | nil => simp [insertOrdered]
  | cons b bs ih =>
    rw [insertOrdered]
    split
    · simp
    · split
      · next h => subst h; simp
      · simp only [List.mem_cons, ih]
        constructor
        · rintro (h | h | h) <;> simp [h]
        · rintro (h | h | h) <;> simp [h]

theorem mem_orderedSet {x : α} {as : List α} : x ∈ orderedSet as ↔ x ∈ as := by
  induction as with
  | nil => simp [orderedSet]
  | cons a as ih => rw [orderedSet, List.foldr_cons, ← orderedSet, mem_insertOrdered, ih,
      List.mem_cons]

end Switching
