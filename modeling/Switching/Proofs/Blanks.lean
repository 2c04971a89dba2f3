import Mathlib.Data.List.TakeWhile
import Switching.Text.CharClass

/-! Blanks around a text. Trimming leaves the one text that neither begins nor ends with a blank and
has nothing but blanks around it. -/
namespace Switching

variable {cs core front back : List Char} {c : Char}

def Blank (cs : List Char) : Prop := ∀ c ∈ cs, isBlank c = true

theorem blank_nil : Blank [] := List.forall_mem_nil _

theorem Blank.append (first : Blank front) (second : Blank back) : Blank (front ++ back) :=
  List.forall_mem_append.mpr ⟨first, second⟩

theorem not_mem_of_blank (solid : isBlank c = false) (blank : Blank cs) : c ∉ cs := by
  intro member
  rw [blank c member] at solid
  cases solid

def Padded (cs core : List Char) : Prop :=
  ∃ front back, Blank front ∧ Blank back ∧ cs = front ++ core ++ back

theorem Padded.not_mem (padded : Padded cs core) (solid : isBlank c = false) (other : c ∉ core) :
    c ∉ cs := by
  obtain ⟨front, back, left, right, rfl⟩ := padded
  simp only [List.mem_append, not_or]
  exact ⟨⟨not_mem_of_blank solid left, other⟩, not_mem_of_blank solid right⟩

/-- What is left of a text without the blanks around it. -/
structure Trims (cs core : List Char) : Prop where
  head : ∀ c ∈ core.head?, isBlank c = false
  last : ∀ c ∈ core.getLast?, isBlank c = false
  around : Padded cs core

theorem dropWhile_isBlank (head : ∀ c ∈ cs.head?, isBlank c = false) :
    cs.dropWhile isBlank = cs := by
  cases cs with
  | nil => rfl
  | cons c rest => rw [List.dropWhile_cons_of_neg (Bool.eq_false_iff.mp (head c rfl))]

theorem head_dropWhile_isBlank (cs : List Char) :
    ∀ c ∈ (cs.dropWhile isBlank).head?, isBlank c = false := by
  intro c hc
  have head := List.head?_dropWhile_not isBlank cs
  rw [Option.mem_def.mp hc] at head
  exact head

theorem trims_trim (cs : List Char) : Trims cs (trim cs) := by
  let rest := cs.dropWhile isBlank
  have left : cs.takeWhile isBlank ++ rest = cs := List.takeWhile_append_dropWhile
  have right : rest = trim cs ++ (rest.reverse.takeWhile isBlank).reverse := by
    rw [trim, ← List.reverse_append, List.takeWhile_append_dropWhile, List.reverse_reverse]
  refine ⟨fun c hc => head_dropWhile_isBlank cs c ?_, fun c hc => ?_, cs.takeWhile isBlank,
    (rest.reverse.takeWhile isBlank).reverse, fun c hc => List.mem_takeWhile_imp hc,
    fun c hc => List.mem_takeWhile_imp (List.mem_reverse.mp hc), ?_⟩
  · change c ∈ rest.head?
    rw [right, List.head?_append, Option.mem_def.mp hc]
    rfl
  · rw [trim, List.getLast?_reverse] at hc
    exact head_dropWhile_isBlank _ c hc
  · rw [List.append_assoc, ← right, left]

theorem Trims.trim_eq (h : Trims cs core) : trim cs = core := by
  obtain ⟨head, last, front, back, left, right, rfl⟩ := h
  rw [trim, List.append_assoc, List.dropWhile_append_of_pos left]
  cases core with
  | nil =>
    have none : back.dropWhile isBlank = [] := List.dropWhile_eq_nil_iff.mpr right
    rw [List.nil_append, none]
    rfl
  | cons c rest =>
    have first : (c :: rest ++ back).dropWhile isBlank = c :: rest ++ back :=
      dropWhile_isBlank head
    have reversed : ∀ d ∈ back.reverse, isBlank d = true :=
      fun d hd => right d (List.mem_reverse.mp hd)
    rw [first, List.reverse_append, List.dropWhile_append_of_pos reversed, dropWhile_isBlank,
      List.reverse_reverse]
    rwa [List.head?_reverse]

theorem trim_eq_iff : trim cs = core ↔ Trims cs core :=
  ⟨fun same => same ▸ trims_trim cs, Trims.trim_eq⟩

theorem Trims.widen (h : Trims cs core) (left : Blank front) (right : Blank back) :
    Trims (front ++ cs ++ back) core := by
  obtain ⟨head, last, front', back', left', right', rfl⟩ := h
  exact ⟨head, last, _, _, left.append left', right'.append right, by simp⟩

theorem trim_eq_nil_iff : trim cs = [] ↔ Blank cs := by
  rw [trim_eq_iff]
  constructor
  · rintro ⟨_, _, front, back, left, right, rfl⟩
    exact (left.append blank_nil).append right
  · exact fun blank => ⟨nofun, nofun, cs, [], blank, blank_nil, by simp⟩

theorem Padded.trims (padded : Padded cs core) (solid : ∀ c ∈ core, isBlank c = false) :
    Trims cs core where
  head c hc := solid c (List.mem_of_mem_head? hc)
  last c hc := solid c (List.mem_of_getLast? hc)
  around := padded

end Switching
