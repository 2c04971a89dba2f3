import Mathlib.Data.List.Nodup
import Switching.Formula.Evaluate

/-! Lists of entries as look-up tables. An assignment that is made from entries has the last value
of each name. The entries of a trace have ascending numbers, each with the value that was recorded
last, as sorting keeps the order in which the values of one number were recorded. -/
namespace Switching

theorem lookup_map {α β γ : Type} [BEq α] (key : γ → α) (value : γ → β) (cs : List γ) (k : α) :
    (cs.map fun c => (key c, value c)).lookup k = (cs.find? fun c => k == key c).map value := by
  induction cs with
  | nil => rfl
  | cons c cs ih =>
    rw [List.map_cons, List.lookup_cons, List.find?_cons, ih]
    cases k == key c <;> rfl

theorem exists_lookup_iff {α β : Type} [BEq α] [LawfulBEq α] {es : List (α × β)} {k : α} :
    (∃ b, es.lookup k = some b) ↔ k ∈ es.map Prod.fst := by
  rw [← Option.isSome_iff_exists, List.lookup_isSome_iff, List.mem_map]
  simp only [beq_iff_eq, eq_comm (a := k)]

theorem lookup_reverse_eq_some_iff {α β : Type} [BEq α] [LawfulBEq α] {es : List (α × β)} {k : α}
    {b : β} : es.reverse.lookup k = some b ↔
      ∃ front back, es = front ++ (k, b) :: back ∧ ∀ e ∈ back, e.1 ≠ k := by
  rw [List.lookup_eq_some_iff]
  constructor
  · rintro ⟨back, front, split, other⟩
    refine ⟨front.reverse, back.reverse, ?_, fun e he => ?_⟩
    · rw [← List.reverse_reverse es, split]
      simp
    · exact (bne_iff_ne.mp (other e (List.mem_reverse.mp he))).symm
  · rintro ⟨front, back, rfl, other⟩
    refine ⟨back.reverse, front.reverse, by simp, fun e he => ?_⟩
    exact bne_iff_ne.mpr (other e (List.mem_reverse.mp he)).symm

namespace Assignment

theorem value?_foldl_set (entries : List (String × Bool)) (a : Assignment) (x : String) :
    (entries.foldl (fun a e => a.set e.1 e.2) a).value? x =
      (entries.reverse.lookup x).or (a.value? x) := by
  induction entries generalizing a with
  | nil => rfl
  | cons e es ih =>
    have last : (a.set e.1 e.2).value? x = ([e].lookup x).or (a.value? x) := by
      rw [value?_set, List.lookup_cons]
      by_cases same : x = e.1
      · simp [same]
      · simp [same, beq_false_of_ne same]
    rw [List.foldl_cons, ih, last, List.reverse_cons, List.lookup_append, Option.or_assoc]

theorem value?_ofList (entries : List (String × Bool)) (x : String) :
    (ofList entries).value? x = entries.reverse.lookup x := by
  rw [ofList, value?_foldl_set]
  exact Option.or_none

theorem mem_keys_setEntry {name x : String} {b : Bool} {es : List (String × Bool)} :
    x ∈ (setEntry name b es).map Prod.fst ↔ x = name ∨ x ∈ es.map Prod.fst := by
  induction es with
  | nil => simp [setEntry]
  | cons e es ih =>
    rw [setEntry]
    split
    · simp_all
    · rw [List.map_cons, List.mem_cons, ih, List.map_cons, List.mem_cons, or_left_comm]

theorem nodup_setEntry {name : String} {b : Bool} {es : List (String × Bool)}
    (nodup : (es.map Prod.fst).Nodup) : ((setEntry name b es).map Prod.fst).Nodup := by
  induction es with
  | nil => exact List.nodup_singleton name
  | cons e es ih =>
    obtain ⟨new, nodup'⟩ := List.nodup_cons.mp nodup
    rw [setEntry]
    split
    · exact nodup
    · refine List.nodup_cons.mpr ⟨fun old => ?_, ih nodup'⟩
      rcases mem_keys_setEntry.mp old with same | old
      · contradiction
      · exact new old

theorem nodup_ofList (entries : List (String × Bool)) :
    ((ofList entries).entries.map Prod.fst).Nodup := by
  suffices ∀ a : Assignment, (a.entries.map Prod.fst).Nodup →
      ((entries.foldl (fun a e => a.set e.1 e.2) a).entries.map Prod.fst).Nodup from
    this empty List.nodup_nil
  induction entries with
  | nil => exact fun _ nodup => nodup
  | cons e es ih => exact fun a nodup => ih _ (nodup_setEntry nodup)

theorem value?_ofList_eq_none_iff {entries : List (String × Bool)} {x : String} :
    (ofList entries).value? x = none ↔ x ∉ entries.map Prod.fst := by
  rw [value?_ofList, Option.eq_none_iff_forall_ne_some, ← not_exists, exists_lookup_iff,
    List.map_reverse, List.mem_reverse]

variable {levels : List (String × Int)} {x : String}

/-- The level of a name is that of its last entry. -/
def level? (levels : List (String × Int)) (x : String) : Option Int := levels.reverse.lookup x

theorem exists_level_iff : (∃ n, level? levels x = some n) ↔ x ∈ levels.map Prod.fst := by
  rw [level?, exists_lookup_iff, List.map_reverse, List.mem_reverse]

theorem value?_ofLevels (levels : List (String × Int)) (x : String) :
    (ofLevels levels).value? x = (level? levels x).map (· != 0) := by
  have plain : levels.reverse = levels.reverse.map fun e => (e.1, e.2) := (List.map_id _).symm
  rw [ofLevels, value?_ofList, ← List.map_reverse, lookup_map, level?, plain, lookup_map,
    Option.map_map]
  simp
  rfl

theorem exists_value_ofLevels_iff :
    (∃ b, (ofLevels levels).value? x = some b) ↔ x ∈ levels.map Prod.fst := by
  rw [value?_ofLevels, ← exists_level_iff, ← Option.isSome_iff_exists, Option.isSome_map,
    Option.isSome_iff_exists]

theorem value?_ofLevels_eq_true_iff :
    ((ofLevels levels).value? x).getD false = true ↔ ∃ n, level? levels x = some n ∧ n ≠ 0 := by
  rw [value?_ofLevels]
  cases level? levels x <;> simp

end Assignment

namespace Trace

variable {e e' : Int × Bool} {es : List (Int × Bool)} {t : Trace} {k : Int} {b : Bool}

theorem lookup_firsts (es : List (Int × Bool)) (k : Int) : (firsts es).lookup k = es.lookup k := by
  fun_induction firsts es with
  | case1 => rfl
  | case2 e => rfl
  | case3 e e' es same ih =>
    rw [ih, List.lookup_cons, List.lookup_cons, List.lookup_cons, ← same]
    cases k == e.1 <;> rfl
  | case4 e e' es differ ih => rw [List.lookup_cons, List.lookup_cons, ih]

theorem firsts_subset (es : List (Int × Bool)) : firsts es ⊆ es := by
  fun_induction firsts es with
  | case1 => exact List.Subset.refl _
  | case2 e => exact List.Subset.refl _
  | case3 e e' es same ih =>
    exact List.Subset.trans ih (List.cons_subset_cons e (List.subset_cons_self ..))
  | case4 e e' es differ ih => exact List.cons_subset_cons e ih

theorem pairwise_firsts (sorted : es.Pairwise fun e e' => e.1 ≤ e'.1) :
    (firsts es).Pairwise fun e e' => e.1 < e'.1 := by
  fun_induction firsts es with
  | case1 => exact .nil
  | case2 e => exact List.pairwise_singleton ..
  | case3 e e' es same ih =>
    apply ih
    exact sorted.sublist ((List.sublist_cons_self ..).cons_cons e)
  | case4 e e' es differ ih =>
    obtain ⟨below, sorted⟩ := List.pairwise_cons.mp sorted
    refine List.pairwise_cons.mpr ⟨fun d hd => ?_, ih sorted⟩
    have next : e.1 < e'.1 := Int.lt_iff_le_and_ne.mpr ⟨below e' (List.mem_cons_self ..), differ⟩
    rcases List.mem_cons.mp (firsts_subset _ hd) with rfl | hd
    · exact next
    · exact Int.lt_of_lt_of_le next ((List.pairwise_cons.mp sorted).1 d hd)

section Sorted

private def byNumber (e e' : Int × Bool) : Bool := e.1 ≤ e'.1

private theorem byNumber_trans (e e' e'' : Int × Bool) (h : byNumber e e' = true)
    (h' : byNumber e' e'' = true) : byNumber e e'' = true := by
  simp only [byNumber, decide_eq_true_eq] at *
  exact Int.le_trans h h'

private theorem byNumber_total (e e' : Int × Bool) : (byNumber e e' || byNumber e' e) = true := by
  simp only [byNumber, Bool.or_eq_true, decide_eq_true_eq]
  exact Int.le_total e.1 e'.1

/-- Sorting leaves the entries of one number in their order, so the first of them stays the same. -/
theorem lookup_sorted (es : List (Int × Bool)) (k : Int) :
    (es.mergeSort fun e e' => e.1 ≤ e'.1).lookup k = es.lookup k := by
  induction es with
  | nil => simp
  | cons e es ih =>
    obtain ⟨front, back, sorted, rest, below⟩ :=
      List.mergeSort_cons byNumber_trans byNumber_total e es
    change ((e :: es).mergeSort byNumber).lookup k = _
    change (es.mergeSort byNumber).lookup k = _ at ih
    rw [sorted, List.lookup_append, List.lookup_cons, List.lookup_cons]
    rw [rest, List.lookup_append] at ih
    by_cases same : k = e.1
    · have none : front.lookup k = none := by
        refine List.lookup_eq_none_iff.mpr fun d hd => ?_
        have less := below d hd
        simp only [byNumber, Bool.not_eq_true', decide_eq_false_iff_not] at less
        simp only [bne_iff_ne]
        omega
      rw [none, same]
      simp
    · simp only [beq_false_of_ne same]
      exact ih

end Sorted

theorem lookup_entries (t : Trace) (k : Int) : t.entries.lookup k = t.value? k := by
  rw [entries, lookup_firsts, lookup_sorted, value?]

theorem pairwise_entries (t : Trace) : t.entries.Pairwise fun e e' => e.1 < e'.1 := by
  apply pairwise_firsts
  have sorted := List.pairwise_mergeSort byNumber_trans byNumber_total t.log
  exact sorted.imp fun below => of_decide_eq_true below

theorem nodup_entries (t : Trace) : (t.entries.map Prod.fst).Nodup :=
  List.pairwise_map.mpr (t.pairwise_entries.imp fun below => Int.ne_of_lt below)

theorem mem_numbers_entries : k ∈ t.entries.map Prod.fst ↔ ∃ b, t.value? k = some b := by
  simp only [← lookup_entries, exists_lookup_iff]

theorem mem_entries : (k, b) ∈ t.entries ↔ t.value? k = some b := by
  rw [← lookup_entries]
  constructor
  · intro member
    obtain ⟨c, found⟩ := mem_numbers_entries.mp (List.mem_map_of_mem (f := Prod.fst) member)
    rw [← lookup_entries] at found
    obtain ⟨front, back, split, _⟩ := List.lookup_eq_some_iff.mp found
    have other : (k, c) ∈ t.entries := by simp [split]
    cases List.inj_on_of_nodup_map t.nodup_entries member other rfl
    exact found
  · intro found
    obtain ⟨front, back, split, _⟩ := List.lookup_eq_some_iff.mp found
    simp [split]

end Trace
end Switching
