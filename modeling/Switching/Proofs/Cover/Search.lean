import Mathlib.Data.List.Nodup
import Switching.Cover.Exact
import Switching.Proofs.Counting

/-! The search for the cheapest selection. What is given up by its bound is too dear, and what is
returned is a selection from the columns that none is cheaper than. -/
namespace Switching

namespace Column

variable {cs chosen : List Column} {rows : List Nat} {c k : Column} {row met : Nat}

def Mark (chosen : List Column) (rows : List Nat) : Prop :=
  ∀ row ∈ rows, ∃ k ∈ chosen, k.marked row = true

def cost (chosen : List Column) : Nat := total (chosen.map (·.price))

theorem testBit_marks (cs : List Column) (met row : Nat) :
    (cs.foldl (fun m c => m ||| c.marks) met).testBit row = true ↔
      met.testBit row = true ∨ ∃ c ∈ cs, c.marked row = true := by
  induction cs generalizing met with
  | nil => simp
  | cons c cs ih =>
    rw [List.foldl_cons, ih, Nat.testBit_or, Bool.or_eq_true, or_assoc]
    simp [marked]

theorem leastPrice_le (hk : k ∈ cs) (marked : k.marked row = true) :
    leastPrice cs row ≤ k.price :=
  List.min?_getD_le_of_mem (List.mem_map_of_mem (List.mem_filter.mpr ⟨hk, marked⟩))

/-- The column marks a row that does not share a column with the rows counted before. -/
def fresh (met : Nat) (rows : List Nat) (k : Column) : Bool :=
  rows.any fun row => k.marked row && !met.testBit row

theorem fresh_cons (met row : Nat) (rows : List Nat) (k : Column) :
    fresh met (row :: rows) k = (k.marked row && !met.testBit row || fresh met rows k) := rfl

/-- The counted rows share no column, so the columns that mark them cost at least the sum of their
least prices. -/
theorem boundFrom_le (sub : chosen ⊆ cs)
    (marks : ∀ row ∈ rows, met.testBit row = false → ∃ k ∈ chosen, k.marked row = true) :
    boundFrom cs met rows ≤ cost (chosen.filter (fresh met rows)) := by
  induction rows generalizing met with
  | nil => exact Nat.zero_le _
  | cons row rows ih =>
    have tail := fun r hr => marks r (List.mem_cons_of_mem row hr)
    rw [boundFrom]
    split
    · rename_i seen
      refine Nat.le_trans (ih tail) (total_filter_le _ _ _ fun k _ hk => ?_)
      rw [fresh_cons, hk, Bool.or_true]
    · rename_i unseen
      have unmet : met.testBit row = false := by simpa using unseen
      obtain ⟨k, hk, hrow⟩ := marks row (List.mem_cons_self ..) unmet
      let met' := (cs.filter (·.marked row)).foldl (fun m c => m ||| c.marks) met
      have grown : ∀ r, met'.testBit r = false → met.testBit r = false := by
        intro r hr
        by_contra seen
        have still := (testBit_marks (cs.filter (·.marked row)) met r).mpr
          (Or.inl (by simpa using seen))
        exact absurd (hr.symm.trans still) (by decide)
      have rest := ih fun r hr unmet' => tail r hr (grown r unmet')
      -- all that the column marks is met now, so it pays for no later row
      have paid : fresh met' rows k = false := by
        simp only [fresh, List.any_eq_false, Bool.and_eq_true, Bool.not_eq_true', not_and]
        intro r _ hr unmet'
        have all := (testBit_marks (cs.filter (·.marked row)) met r).mpr
          (Or.inr ⟨k, List.mem_filter.mpr ⟨sub hk, hrow⟩, hr⟩)
        exact absurd (unmet'.symm.trans all) (by decide)
      have pays : fresh met (row :: rows) k = true := by
        rw [fresh_cons, hrow, unmet]; rfl
      have least := leastPrice_le (sub hk) hrow
      have split := total_filter_add_le (·.price) _ _ hk paid pays fun k' _ hk' => by
        obtain ⟨r, hr, marked⟩ := List.any_eq_true.mp hk'
        simp only [Bool.and_eq_true, Bool.not_eq_true'] at marked
        refine List.any_eq_true.mpr ⟨r, List.mem_cons_of_mem _ hr, ?_⟩
        simp [marked.1, grown r marked.2]
      have goal : leastPrice cs row + boundFrom cs met' rows ≤
          k.price + cost (chosen.filter (fresh met' rows)) := Nat.add_le_add least rest
      exact Nat.le_trans goal split

theorem bound_le (sub : chosen ⊆ cs) (marks : Mark chosen rows) :
    bound cs rows ≤ cost chosen := by
  have fresh : bound cs rows ≤ cost (chosen.filter (fresh 0 rows)) :=
    boundFrom_le sub fun row hr _ => marks row hr
  exact Nat.le_trans fresh (total_filter_le_total _ _ _)

theorem mem_scarcestFirst : row ∈ scarcestFirst cs rows ↔ row ∈ rows := by
  simp [scarcestFirst, (List.mergeSort_perm _ _).mem_iff]

theorem mark_scarcestFirst : Mark chosen (scarcestFirst cs rows) ↔ Mark chosen rows :=
  forall_congr' fun _ => imp_congr_left mem_scarcestFirst

theorem cost_others (h : c ∈ chosen) : c.price + cost (c.others chosen) ≤ cost chosen := by
  have split := total_filter_add_le (·.price) (· != c) (fun _ => true) h (by simp) rfl (by simp)
  rwa [List.filter_true] at split

theorem mark_others (marks : Mark chosen rows) : Mark (c.others chosen) (c.leaves rows) := by
  intro row hr
  obtain ⟨hr, unmarked⟩ := List.mem_filter.mp hr
  obtain ⟨k, hk, marked⟩ := marks row hr
  refine ⟨k, List.mem_filter.mpr ⟨hk, ?_⟩, marked⟩
  have other : k ≠ c := by
    rintro rfl
    simp [marked] at unmarked
  simpa using other

theorem leaves_cons (marked : c.marked row = true) : c.leaves rows = c.leaves (row :: rows) := by
  simp [leaves, marked]

theorem mark_cons (marks : Mark chosen (c.leaves rows)) : Mark (c :: chosen) rows := by
  intro row hr
  by_cases marked : c.marked row = true
  · exact ⟨c, List.mem_cons_self .., marked⟩
  · obtain ⟨k, hk, hm⟩ := marks row (List.mem_filter.mpr ⟨hr, by simpa using marked⟩)
    exact ⟨k, List.mem_cons_of_mem _ hk, hm⟩

theorem others_subset (c : Column) (cs : List Column) : c.others cs ⊆ cs :=
  fun _ hk => List.mem_of_mem_filter hk

theorem not_mem_others (c : Column) (cs : List Column) : c ∉ c.others cs := by
  simp [others]

theorem nodup_others (h : cs.Nodup) : (c.others cs).Nodup := h.filter _

end Column

namespace Selection

open Column

variable {cs chosen : List Column} {rows : List Nat} {c k : Column} {row limit : Nat}
  {s : Selection} {best found : Option Selection}

def Stands (cs : List Column) (rows : List Nat) (s : Selection) : Prop :=
  ∃ chosen : List Column, chosen.Nodup ∧ chosen ⊆ cs ∧ Mark chosen rows ∧
    s.places = chosen.map (·.place) ∧ s.price = cost chosen

def reached (limit : Nat) (found : Option Selection) : Nat := (found.map (·.price)).getD limit

/-- The answer to a search: a selection below the limit, and none that marks the rows is cheaper. -/
structure Answers (cs : List Column) (rows : List Nat) (limit : Nat) (found : Option Selection) :
    Prop where
  stands : ∀ s, found = some s → s.price < limit ∧ Stands cs rows s
  least : ∀ chosen, chosen ⊆ cs → Mark chosen rows → reached limit found ≤ cost chosen

/-- The answer to a search among the columns left for a row: as good as the best one so far, and as
good as any selection with one of these columns for the row. -/
structure Improves (cs : List Column) (row : Nat) (rest : List Nat) (left : List Column)
    (limit : Nat) (best found : Option Selection) : Prop where
  stands : found = best ∨ ∃ s, found = some s ∧ s.price < limit ∧ Stands cs (row :: rest) s
  least : ∀ chosen, chosen ⊆ cs → Mark chosen (row :: rest) →
    (∃ k ∈ left, k ∈ chosen ∧ k.marked row = true) → reached limit found ≤ cost chosen

theorem Stands.mono (h : Stands (c.others cs) rows s) : Stands cs rows s := by
  obtain ⟨chosen, nodup, sub, marks, places, price⟩ := h
  exact ⟨chosen, nodup, fun k hk => others_subset c cs (sub hk), marks, places, price⟩

theorem Stands.add (h : Stands (c.others cs) (c.leaves rows) s) (hc : c ∈ cs) :
    Stands cs rows (s.add c) := by
  obtain ⟨chosen, nodup, sub, marks, places, price⟩ := h
  refine ⟨c :: chosen, ?_, ?_, mark_cons marks, ?_, ?_⟩
  · exact List.nodup_cons.mpr ⟨fun hc => not_mem_others c cs (sub hc), nodup⟩
  · exact List.cons_subset.mpr ⟨hc, fun k hk => others_subset c cs (sub hk)⟩
  · simp [Selection.add, places]
  · simp [Selection.add, price, cost]

theorem Improves.reached_le (h : Improves cs row rest left limit best found)
    (start : reached limit best = limit) : reached limit found ≤ limit := by
  rcases h.stands with same | ⟨s, hs, below, _⟩
  · exact Nat.le_of_eq (same ▸ start)
  · rw [hs]
    exact Nat.le_of_lt below

/-- What is known once a column was tried for the first row: `found` is the best selection of the
others for what the column leaves. -/
structure Tried (cs : List Column) (rows : List Nat) (limit : Nat) (c : Column)
    (found : Option Selection) : Prop where
  stands : ∀ s, found = some s → c.price + s.price < limit ∧ Stands (c.others cs) (c.leaves rows) s
  least : ∀ chosen, chosen ⊆ c.others cs → Mark chosen (c.leaves rows) →
    reached limit (found.map (·.add c)) ≤ c.price + cost chosen

theorem tried_of_answers
    (h : Answers (c.others cs) (scarcestFirst (c.others cs) (c.leaves rows)) (limit - c.price)
      found)
    (below : c.price < limit) : Tried cs rows limit c found where
  stands s hs := by
    obtain ⟨lower, chosen, nodup, sub, marks, same⟩ := h.stands s hs
    exact ⟨by omega, chosen, nodup, sub, mark_scarcestFirst.mp marks, same⟩
  least chosen sub marks := by
    have least := h.least chosen sub (mark_scarcestFirst.mpr marks)
    cases found with
    | none =>
      change limit - c.price ≤ cost chosen at least
      change limit ≤ c.price + cost chosen
      omega
    | some s => exact Nat.add_le_add_left least _

theorem tried_none (above : ¬ c.price < limit) : Tried cs rows limit c none where
  stands s hs := by cases hs
  least chosen _ _ := by
    change limit ≤ c.price + cost chosen
    omega

theorem Tried.reached_le (h : Tried cs rows limit c found) :
    reached limit (found.map (·.add c)) ≤ limit := by
  cases found with
  | none => exact Nat.le_refl _
  | some s => exact Nat.le_of_lt (h.stands s rfl).1

theorem Improves.of_tried {rest : List Nat} {left : List Column}
    (tried : Tried cs rest limit c found) (hc : c ∈ cs) (marked : c.marked row = true)
    (start : reached limit best = limit) {result : Option Selection}
    (h : Improves (c.others cs) row rest left (reached limit (found.map (·.add c)))
      ((found.map (·.add c)).or best) result) :
    Improves cs row rest (c :: left) limit best result := by
  have known : reached (reached limit (found.map (·.add c))) ((found.map (·.add c)).or best) =
      reached limit (found.map (·.add c)) := by
    cases found with
    | none => exact start
    | some s => rfl
  -- a search that finds nothing had nothing to begin with
  have same : reached (reached limit (found.map (·.add c))) result = reached limit result := by
    cases result with
    | some t => rfl
    | none =>
      cases found with
      | none => rfl
      | some s =>
        rcases h.stands with impossible | ⟨t, ht, _⟩
        · cases impossible
        · cases ht
  have lower := same ▸ h.reached_le known
  constructor
  · rcases h.stands with result | ⟨t, ht, below, stands⟩
    · cases found with
      | none => exact Or.inl result
      | some s =>
        obtain ⟨below, stands⟩ := tried.stands s rfl
        exact Or.inr ⟨s.add c, result, below, Stands.add (leaves_cons marked ▸ stands) hc⟩
    · refine Or.inr ⟨t, ht, Nat.lt_of_lt_of_le below tried.reached_le, stands.mono⟩
  · rintro chosen sub marks ⟨k, hk, member, hrow⟩
    by_cases used : c ∈ chosen
    · have apart : c.others chosen ⊆ c.others cs := fun k hk =>
        List.mem_filter.mpr ⟨sub (others_subset c _ hk), (List.mem_filter.mp hk).2⟩
      have tail : Mark chosen rest := fun r hr => marks r (List.mem_cons_of_mem _ hr)
      have dearer := tried.least (c.others chosen) apart (mark_others tail)
      exact Nat.le_trans lower (Nat.le_trans dearer (cost_others used))
    · have other : ∀ d ∈ chosen, d ≠ c := by
        rintro d hd rfl
        exact used hd
      have apart : chosen ⊆ c.others cs := fun d hd =>
        List.mem_filter.mpr ⟨sub hd, by simpa using other d hd⟩
      rcases List.mem_cons.mp hk with rfl | hk
      · exact absurd member used
      · exact same ▸ h.least chosen apart marks ⟨k, hk, member, hrow⟩

theorem searchEach_improves {rest : List Nat}
    (deeper : ∀ cs rows limit, rows.length ≤ rest.length → cs.Nodup →
      Answers cs rows limit (search cs rows limit))
    (left : List Column) (nodup : cs.Nodup) (once : left.Nodup) (sub : left ⊆ cs)
    (start : reached limit best = limit) :
    Improves cs row rest left limit best (searchEach cs row rest left limit best) := by
  induction left generalizing cs limit best with
  | nil =>
    rw [searchEach]
    refine ⟨Or.inl rfl, fun chosen _ _ some => ?_⟩
    obtain ⟨k, hk, _⟩ := some
    cases hk
  | cons c left ih =>
    obtain ⟨fresh, once⟩ := List.nodup_cons.mp once
    obtain ⟨hc, sub⟩ := List.cons_subset.mp sub
    have apart : left ⊆ c.others cs := by
      intro k hk
      refine List.mem_filter.mpr ⟨sub hk, ?_⟩
      have other : k ≠ c := fun same => fresh (same ▸ hk)
      simpa using other
    have go : ∀ {limit : Nat} {best : Option Selection}, reached limit best = limit →
        Improves (c.others cs) row rest left limit best
          (searchEach (c.others cs) row rest left limit best) :=
      ih (nodup_others nodup) once apart
    rw [searchEach]
    split
    · rename_i marked
      have tried : Tried cs rest limit c (if c.price < limit then
          search (c.others cs) (scarcestFirst (c.others cs) (c.leaves rest)) (limit - c.price)
          else none) := by
        split
        · rename_i below
          refine tried_of_answers (deeper _ _ _ ?_ (nodup_others nodup)) below
          rw [length_scarcestFirst]
          exact length_leaves_le c rest
        · rename_i above
          exact tried_none above
      simp only
      split
      · rename_i s hs
        rw [hs] at tried
        exact Improves.of_tried tried hc marked start (go rfl)
      · rename_i hs
        rw [hs] at tried
        exact Improves.of_tried tried hc marked start (go start)
    · rename_i unmarked
      have others := ih nodup once sub start
      refine ⟨others.stands, fun chosen hsub marks some => ?_⟩
      obtain ⟨k, hk, member, hrow⟩ := some
      rcases List.mem_cons.mp hk with rfl | hk
      · exact absurd hrow unmarked
      · exact others.least chosen hsub marks ⟨k, hk, member, hrow⟩

/-- The search answers with a selection that none is cheaper than. -/
theorem search_answers (cs : List Column) (rows : List Nat) (limit : Nat) (nodup : cs.Nodup) :
    Answers cs rows limit (search cs rows limit) := by
  induction hn : rows.length using Nat.strongRecOn generalizing cs rows limit with
  | ind n deeper =>
    cases rows with
    | nil =>
      rw [search]
      split
      · rename_i none
        exact ⟨fun s hs => (by cases hs), fun _ _ _ => none ▸ Nat.zero_le _⟩
      · rename_i some
        refine ⟨fun s hs => ?_, fun _ _ _ => Nat.zero_le _⟩
        cases hs
        exact ⟨Nat.pos_of_ne_zero some, [], List.nodup_nil, List.nil_subset _,
          fun r hr => (by cases hr), rfl, rfl⟩
    | cons row rest =>
      rw [search]
      split
      · rename_i dear
        exact ⟨fun s hs => (by cases hs), fun chosen sub marks =>
          Nat.le_trans dear (bound_le sub marks)⟩
      · have each : Improves cs row rest cs limit none (searchEach cs row rest cs limit none) := by
          refine searchEach_improves ?_ cs nodup nodup (List.Subset.refl _) rfl
          intro cs rows limit shorter nodup
          rw [List.length_cons] at hn
          exact deeper rows.length (by omega) cs rows limit nodup rfl
        constructor
        · intro s hs
          rcases each.stands with none | ⟨t, ht, found⟩
          · rw [hs] at none
            cases none
          · rw [hs] at ht
            cases ht
            exact found
        · intro chosen sub marks
          obtain ⟨k, member, marked⟩ := marks row (List.mem_cons_self ..)
          exact each.least chosen sub marks ⟨k, sub member, member, marked⟩

end Selection

end Switching
