import Mathlib.Data.List.Sublists
import Switching.Proofs.Cutting
import Switching.Proofs.Products
import Switching.Proofs.Separator
import Switching.Proofs.Valuation

/-! What can be told from the text of a sum of products. The terms are apart, as no term has a blank
in it, and so are the primes, as no name has one. The names of a term are written side by side with
nothing between them, so they can be told from the text if no two choices of names give the same
letters. -/
namespace Switching

/-- No two choices of the names, in the order of the list, run together to the same text. -/
def SpellsApart (names : List String) : Prop :=
  ∀ ks ls : List String, ks.Sublist names → ls.Sublist names →
    String.join ks = String.join ls → ks = ls

instance (names : List String) : Decidable (SpellsApart names) :=
  decidable_of_iff
    (∀ ks ∈ names.sublists, ∀ ls ∈ names.sublists, String.join ks = String.join ls → ks = ls)
    ⟨fun apart ks ls hk hl => apart ks (List.mem_sublists.mpr hk) ls (List.mem_sublists.mpr hl),
      fun apart ks hk ls hl => apart ks ls (List.mem_sublists.mp hk) (List.mem_sublists.mp hl)⟩

section Names

variable {names : List String} {x : String}

theorem IsIdentifier.ne_empty (h : IsIdentifier x) : x ≠ "" := by
  rintro rfl
  obtain ⟨c, head, _⟩ := h.capitalized
  cases head

theorem IsIdentifier.isNameChar (h : IsIdentifier x) : ∀ c ∈ x.toList, isNameChar c = true :=
  List.all_eq_true.mp h.inside

theorem eq_nil_of_join (some : ∀ x ∈ names, x ≠ "") (same : String.join names = "") :
    names = [] := by
  cases names with
  | nil => rfl
  | cons x xs =>
    rw [String.join_cons, String.append_eq_empty_iff] at same
    exact absurd same.1 (some x (List.mem_cons_self ..))

/-- Names of which none begins with another one can be told apart. -/
theorem spellsApart_of_no_prefix (some : ∀ x ∈ names, x ≠ "")
    (apart : ∀ x ∈ names, ∀ y ∈ names, x.toList <+: y.toList → x = y) : SpellsApart names := by
  intro ks ls
  induction ks generalizing ls with
  | nil =>
    intro _ sub same
    exact (eq_nil_of_join (fun x hx => some x (sub.subset hx)) same.symm).symm
  | cons k ks ih =>
    intro subK subL same
    have inK := subK.subset (List.mem_cons_self ..)
    cases ls with
    | nil => exact eq_nil_of_join (fun x hx => some x (subK.subset hx)) same
    | cons l ls =>
      have inL := subL.subset (List.mem_cons_self ..)
      rw [String.join_cons, String.join_cons] at same
      have letters := congrArg String.toList same
      rw [String.toList_append, String.toList_append] at letters
      have front : k.toList <+: l.toList ++ (String.join ls).toList :=
        letters ▸ List.prefix_append _ _
      have first : k = l := by
        rcases List.prefix_or_prefix_of_prefix front (List.prefix_append _ _) with shorter | longer
        · exact apart k inK l inL shorter
        · exact (apart l inL k inK longer).symm
      subst first
      have behind := String.toList_inj.mp (List.append_cancel_left letters)
      rw [ih ls ((List.sublist_cons_self ..).trans subK) ((List.sublist_cons_self ..).trans subL)
        behind]

example : ¬SpellsApart ["A", "AB", "B"] := by decide +kernel

end Names

namespace Implicant

variable {names : List String} {ls ks : List (String × Bool)} {i j : Implicant}
  {is js : List Implicant}

def literalsText (ls : List (String × Bool)) : String :=
  String.join (ls.map fun l => if l.2 then l.1 else l.1 ++ "'")

theorem term_eq_literalsText (some : i.pattern.literalsOver names ≠ []) :
    i.term names = literalsText (i.pattern.literalsOver names) := by
  unfold term
  split
  · rename_i none
    exact absurd none some
  · rfl

theorem toList_literalsText_cons (x : String) (b : Bool) (ls : List (String × Bool)) :
    (literalsText ((x, b) :: ls)).toList =
      x.toList ++ ((if b then [] else ['\'']) ++ (literalsText ls).toList) := by
  unfold literalsText
  rw [List.map_cons, String.join_cons, String.toList_append]
  cases b <;> simp

theorem head?_literalsText (identifiers : ∀ l ∈ ls, IsIdentifier l.1) :
    ∀ c ∈ (literalsText ls).toList.head?, isNameChar c = true := by
  intro c hc
  cases ls with
  | nil => cases hc
  | cons l ls =>
    have identifier := identifiers l (List.mem_cons_self ..)
    obtain ⟨d, head, _⟩ := identifier.capitalized
    obtain ⟨ds, spelled⟩ := List.head?_eq_some_iff.mp head
    rw [toList_literalsText_cons, spelled] at hc
    cases hc
    apply identifier.isNameChar
    rw [spelled]
    exact List.mem_cons_self ..

theorem mem_literalsText (identifiers : ∀ l ∈ ls, IsIdentifier l.1) {c : Char}
    (hc : c ∈ (literalsText ls).toList) : isNameChar c = true ∨ c = '\'' := by
  induction ls with
  | nil => cases hc
  | cons l ls ih =>
    rw [toList_literalsText_cons, List.mem_append, List.mem_append] at hc
    rcases hc with name | prime | rest
    · exact .inl ((identifiers l (List.mem_cons_self ..)).isNameChar c name)
    · right
      cases l.2 <;> simp_all
    · exact ih (fun k hk => identifiers k (List.mem_cons_of_mem _ hk)) rest

theorem filter_literalsText (identifiers : ∀ l ∈ ls, IsIdentifier l.1) :
    (literalsText ls).toList.filter isNameChar = (String.join (ls.map Prod.fst)).toList := by
  induction ls with
  | nil => rfl
  | cons l ls ih =>
    have name := (identifiers l (List.mem_cons_self ..)).isNameChar
    have rest := ih fun k hk => identifiers k (List.mem_cons_of_mem _ hk)
    have prime : (if l.2 then [] else ['\'']).filter isNameChar = [] := by
      cases l.2 <;> rfl
    rw [toList_literalsText_cons, List.filter_append, List.filter_append,
      List.filter_eq_self.mpr name, rest, prime, List.map_cons, String.join_cons,
      String.toList_append, List.nil_append]

theorem literals_eq_of_names (identifiers : ∀ l ∈ ls, IsIdentifier l.1)
    (names : ls.map Prod.fst = ks.map Prod.fst) (same : literalsText ls = literalsText ks) :
    ls = ks := by
  induction ls generalizing ks with
  | nil => exact (List.map_eq_nil_iff.mp names.symm).symm
  | cons l ls ih =>
    obtain ⟨x, b⟩ := l
    cases ks with
    | nil => cases names
    | cons k ks =>
      obtain ⟨y, c⟩ := k
      have behind : ls.map Prod.fst = ks.map Prod.fst := (List.cons.inj names).2
      have first : x = y := (List.cons.inj names).1
      subst first
      have others : ∀ l ∈ ls, IsIdentifier l.1 :=
        fun l hl => identifiers l (List.mem_cons_of_mem _ hl)
      have others' : ∀ k ∈ ks, IsIdentifier k.1 := by
        intro k hk
        obtain ⟨l, hl, name⟩ := List.mem_map.mp (behind ▸ List.mem_map_of_mem hk)
        exact name ▸ others l hl
      have letters := congrArg String.toList same
      rw [toList_literalsText_cons, toList_literalsText_cons, List.append_cancel_left_eq] at letters
      -- a prime on one side only would be the first letter of the next name on the other
      cases b <;> cases c
      · rw [ih others behind (String.toList_inj.mp (List.append_cancel_left letters))]
      · have head : '\'' ∈ (literalsText ks).toList.head? := by
          rw [← List.nil_append (literalsText ks).toList]
          exact letters ▸ rfl
        cases head?_literalsText others' '\'' head
      · have head : '\'' ∈ (literalsText ls).toList.head? := by
          rw [← List.nil_append (literalsText ls).toList]
          exact letters.symm ▸ rfl
        cases head?_literalsText others '\'' head
      · rw [ih others behind (String.toList_inj.mp letters)]

theorem names_literalsOver_sublist (p : Pattern) (names : List String) :
    ((p.literalsOver names).map Prod.fst).Sublist names := by
  unfold Pattern.literalsOver
  induction names generalizing p with
  | nil => exact List.Sublist.refl _
  | cons x xs ih =>
    cases p with
    | nil => exact List.nil_sublist _
    | cons t ts =>
      cases t with
      | zero => exact (ih ts).cons_cons x
      | one => exact (ih ts).cons_cons x
      | dash => exact (ih ts).cons x

theorem isIdentifier_of_literal (identifiers : ∀ x ∈ names, IsIdentifier x) (p : Pattern) :
    ∀ l ∈ p.literalsOver names, IsIdentifier l.1 :=
  fun _ hl => identifiers _ ((names_literalsOver_sublist p names).subset (List.mem_map_of_mem hl))

/-- Where names can be told apart, a term says what its literals are. -/
theorem literals_eq_of_term (apart : SpellsApart names)
    (identifiers : ∀ x ∈ names, IsIdentifier x) (some : i.pattern.literalsOver names ≠ [])
    (some' : j.pattern.literalsOver names ≠ []) (same : i.term names = j.term names) :
    i.pattern.literalsOver names = j.pattern.literalsOver names := by
  rw [term_eq_literalsText some, term_eq_literalsText some'] at same
  have first := isIdentifier_of_literal identifiers i.pattern
  have second := isIdentifier_of_literal identifiers j.pattern
  apply literals_eq_of_names first _ same
  apply apart _ _ (names_literalsOver_sublist ..) (names_literalsOver_sublist ..)
  rw [← String.toList_inj, ← filter_literalsText first, same, filter_literalsText second]

theorem covers_eq_of_literals (nodup : names.Nodup) (length : i.pattern.length = names.length)
    (length' : j.pattern.length = names.length)
    (same : i.pattern.literalsOver names = j.pattern.literalsOver names) {m : Nat}
    (hm : m < 2 ^ names.length) : i.covers m = j.covers m := by
  obtain ⟨v, rfl⟩ := Assignment.exists_numberOf nodup hm
  unfold covers
  rw [Pattern.covers_numberOf_eq (by rw [length, List.length_map]),
    Pattern.covers_numberOf_eq (by rw [length', List.length_map]), ← all_literals length,
    ← all_literals length', same]

theorem blank_not_mem_term (identifiers : ∀ x ∈ names, IsIdentifier x) (i : Implicant) :
    ' ' ∉ (i.term names).toList := by
  intro blank
  by_cases some : i.pattern.literalsOver names = []
  · rw [term, some] at blank
    cases blank with
    | tail _ rest => cases rest
  · rw [term_eq_literalsText some] at blank
    rcases mem_literalsText (isIdentifier_of_literal identifiers i.pattern) blank with name | prime
    · cases name
    · cases prime

theorem terms_eq_of_sumText (identifiers : ∀ x ∈ names, IsIdentifier x) (some : is ≠ [])
    (some' : js ≠ []) (same : sumText is names = sumText js names) :
    is.map (·.term names) = js.map (·.term names) := by
  obtain ⟨i, is, rfl⟩ := List.exists_cons_of_ne_nil some
  obtain ⟨j, js, rfl⟩ := List.exists_cons_of_ne_nil some'
  have free : ∀ is : List Implicant, ∀ t ∈ is.map (·.term names), ' ' ∉ t.toList := by
    intro is t ht
    obtain ⟨i, _, rfl⟩ := List.mem_map.mp ht
    exact blank_not_mem_term identifiers i
  have divides : Divides " + " ' ' := ⟨[], ['+', ' '], rfl, List.not_mem_nil⟩
  exact divides.intercalate_inj (by simp) (by simp) (free (i :: is)) (free (j :: js)) same

end Implicant

end Switching
