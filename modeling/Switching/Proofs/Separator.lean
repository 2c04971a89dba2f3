import Switching.Text.Layout

/-! Texts that are joined by a separator. If a character of the separator is in none of the texts, it
tells where each of them ends, and they can all be read off what they are joined to. -/
namespace Switching

variable {c : Char} {sep s : String} {ss ss' : List String}

theorem cut_inj {front front' back back' : List Char} (inside : c ∉ front) (inside' : c ∉ front')
    (same : front ++ c :: back = front' ++ c :: back') : front = front' ∧ back = back' := by
  induction front generalizing front' with
  | nil =>
    cases front' with
    | nil => exact ⟨rfl, (List.cons.inj same).2⟩
    | cons d ds => exact absurd ((List.cons.inj same).1 ▸ List.mem_cons_self ..) inside'
  | cons d ds ih =>
    cases front' with
    | nil => exact absurd ((List.cons.inj same).1 ▸ List.mem_cons_self ..) inside
    | cons e es =>
      obtain ⟨first, rest⟩ := List.cons.inj same
      obtain ⟨fronts, backs⟩ := ih (fun h => inside (List.mem_cons_of_mem _ h))
        (fun h => inside' (List.mem_cons_of_mem _ h)) rest
      exact ⟨first ▸ fronts ▸ rfl, backs⟩

/-- A separator and a character at which texts between separators can be cut. -/
def Divides (sep : String) (c : Char) : Prop :=
  ∃ front back, sep.toList = front ++ c :: back ∧ c ∉ front

theorem Divides.toList_intercalate {front back : List Char} (spelled : sep.toList = front ++ c :: back)
    (t u : String) (us : List String) : (sep.intercalate (t :: u :: us)).toList =
      (t.toList ++ front) ++ c :: (back ++ (sep.intercalate (u :: us)).toList) := by
  rw [String.intercalate_cons_cons, String.toList_append, String.toList_append, spelled]
  simp only [List.append_assoc, List.cons_append]

theorem Divides.intercalate_inj (divides : Divides sep c) (some : ss ≠ []) (some' : ss' ≠ [])
    (inside : ∀ t ∈ ss, c ∉ t.toList) (inside' : ∀ t ∈ ss', c ∉ t.toList)
    (same : sep.intercalate ss = sep.intercalate ss') : ss = ss' := by
  obtain ⟨front, back, spelled, fresh⟩ := divides
  have ends : ∀ t : String, c ∉ t.toList → c ∉ t.toList ++ front := by
    intro t free
    rw [List.mem_append]
    exact not_or.mpr ⟨free, fresh⟩
  induction ss generalizing ss' with
  | nil => exact absurd rfl some
  | cons s ss ih =>
    obtain ⟨s', ss', rfl⟩ := List.exists_cons_of_ne_nil some'
    have first := inside s (List.mem_cons_self ..)
    have first' := inside' s' (List.mem_cons_self ..)
    have letters := congrArg String.toList same
    -- where one list ends and the other goes on, the separator would be inside of a text
    cases ss with
    | nil =>
      cases ss' with
      | nil => simpa using same
      | cons u us =>
        rw [toList_intercalate spelled, String.intercalate_singleton] at letters
        exact absurd (letters ▸ List.mem_append_right _ (List.mem_cons_self ..)) first
    | cons t ts =>
      cases ss' with
      | nil =>
        rw [toList_intercalate spelled, String.intercalate_singleton] at letters
        exact absurd (letters ▸ List.mem_append_right _ (List.mem_cons_self ..)) first'
      | cons u us =>
        rw [toList_intercalate spelled, toList_intercalate spelled] at letters
        obtain ⟨heads, tails⟩ := cut_inj (ends s first) (ends s' first') letters
        have rest : t :: ts = u :: us := by
          apply ih (List.cons_ne_nil t ts) (List.cons_ne_nil u us)
          · exact fun v hv => inside v (List.mem_cons_of_mem _ hv)
          · exact fun v hv => inside' v (List.mem_cons_of_mem _ hv)
          · exact String.toList_inj.mp (List.append_cancel_left tails)
        rw [String.toList_inj.mp (List.append_cancel_right heads), rest]

theorem not_mem_intercalate (outside : c ∉ sep.toList) (inside : ∀ t ∈ ss, c ∉ t.toList) :
    c ∉ (sep.intercalate ss).toList := by
  induction ss with
  | nil => simp
  | cons s ss ih =>
    have rest := ih fun t ht => inside t (List.mem_cons_of_mem _ ht)
    have first := inside s (List.mem_cons_self ..)
    by_cases none : ss = []
    · simpa [none] using first
    · rw [String.intercalate_cons_of_ne_nil none, String.toList_append, String.toList_append,
        List.mem_append, List.mem_append]
      exact not_or.mpr ⟨not_or.mpr ⟨first, outside⟩, rest⟩

theorem lines_append (ls : List String) (s : String) :
    lines ls ++ s = "\n".intercalate (ls ++ [s]) := by
  induction ls with
  | nil => simp [lines]
  | cons l ls ih =>
    rw [List.cons_append, String.intercalate_cons_of_ne_nil (by simp), ← ih, lines, List.map_cons,
      String.join_cons, lines, String.append_assoc]

theorem lines_inj (some : ss ≠ []) (some' : ss' ≠ []) (inside : ∀ l ∈ ss, '\n' ∉ l.toList)
    (inside' : ∀ l ∈ ss', '\n' ∉ l.toList) (same : "\n".intercalate ss = "\n".intercalate ss') :
    ss = ss' :=
  Divides.intercalate_inj ⟨[], [], rfl, List.not_mem_nil⟩ some some' inside inside' same

end Switching
