import Switching.Proofs.Grammar.Rendering
import Switching.Proofs.Products

/-! Texts that are put together from the texts of operands: sums with plus signs, sums between
parentheses, and operands side by side. Wherever such a text stands, it is cut into the tokens of
the formula that its parts make up, and parentheses are nested in it no deeper than in its parts. -/
namespace Switching

/-- With no word going on behind it, the text is cut into the tokens of a phrase that stands for the
formula, and no more than so many of its parentheses are open at once. -/
def Writes (phrase : Phrase) (s : String) (f : Formula) (levels : Nat) : Prop :=
  ∀ position back, endsKeyword back = true →
    ∃ ts, Token.Cuts position s.toList ts back ∧ Derives Token.IsPrefix phrase ts f ∧
      ∀ d : Int, d + levels ≤ maxDepth → tooDeep? d ts = none

theorem intercalate_eq_foldl (separator s : String) (ss : List String) :
    separator.intercalate (s :: ss) = ss.foldl (fun front t => front ++ separator ++ t) s := by
  induction ss generalizing s with
  | nil => rfl
  | cons t ts ih => exact ih (s ++ separator ++ t)

theorem join_eq_foldl (s : String) (ss : List String) :
    String.join (s :: ss) = ss.foldl (· ++ ·) s := by
  unfold String.join
  rw [List.foldl_cons, String.empty_append]

theorem Token.cuts_plus (position : Nat) (back : List Char) :
    Cuts position " + ".toList [⟨.gate .or, "+", position + 1, 1⟩] back := by
  have gap := cuts_blank position (['+'] ++ ([' '] ++ back))
  have sign := cuts_sign (rfl : Lexeme.sign? '+' = some (.gate .or)) (position + 1) ([' '] ++ back)
  have space := cuts_blank (position + 2) back
  exact (gap.append sign).append space

namespace Writes

variable {phrase phrase' : Phrase} {s t : String} {f g : Formula} {n : Nat}

theorem mono (h : Writes phrase s f n)
    (derives : ∀ ts, Derives Token.IsPrefix phrase ts f → Derives Token.IsPrefix phrase' ts f) :
    Writes phrase' s f n := by
  intro position back ended
  obtain ⟨ts, cuts, derived, shallow⟩ := h position back ended
  exact ⟨ts, cuts, derives ts derived, shallow⟩

theorem chain (h : Writes .operand s f n) (level : Tier) : Writes (.chain level) s f n :=
  h.mono fun _ derived => Formula.derives_chain derived level

theorem of_flat {ts : Nat → List Token}
    (cuts : ∀ position back, endsKeyword back = true →
      Token.Cuts position s.toList (ts position) back)
    (derived : ∀ position, Derives Token.IsPrefix phrase (ts position) f)
    (flat : ∀ position, ∀ u ∈ ts position, u.rise = 0) (n : Nat) : Writes phrase s f n := by
  intro position back ended
  refine ⟨_, cuts position back ended, derived position, fun d within => ?_⟩
  apply tooDeep?_of_flat _ (flat position)
  omega

theorem bit (b : Bool) (n : Nat) : Writes .operand (bitText b) (.const b 0) n := by
  apply of_flat fun position _ ended => Token.cuts_bit b position ended
  · intro position
    cases b <;> exact Formula.derives_plain (.constant rfl)
  · exact fun position => List.forall_mem_singleton.mpr rfl

theorem name {x : String} (identifier : IsIdentifier x) (n : Nat) :
    Writes .operand x (.var x 0) n := by
  apply of_flat fun position _ ended => Token.cuts_identifier identifier ended position
  · exact fun position => Formula.derives_plain (.name rfl)
  · exact fun position => List.forall_mem_singleton.mpr rfl

theorem primed {x : String} (identifier : IsIdentifier x) (n : Nat) :
    Writes .operand (x ++ "'") (.not (.var x 0) 0) n := by
  have cuts : ∀ position back, endsKeyword back = true →
      Token.Cuts position (x ++ "'").toList
        [⟨.name, x, position, x.length⟩, ⟨.negation, "'", position + x.toList.length, 1⟩] back := by
    intro position back _
    rw [String.toList_append]
    exact (Token.cuts_identifier identifier rfl position).append (Token.cuts_sign rfl _ back)
  apply of_flat cuts
  · intro position
    have none : ∀ u ∈ ([] : List Token), u.isNegation = true ∧ u.IsPrefix := by simp
    exact .signed none (.name rfl) (List.forall_mem_singleton.mpr rfl)
  · exact fun position => List.forall_mem_cons.mpr ⟨rfl, List.forall_mem_singleton.mpr rfl⟩

theorem tooDeep?_pair {ls rs : List Token} {d : Int} (flat : nesting ls = 0)
    (left : tooDeep? d ls = none) (right : tooDeep? d rs = none) :
    tooDeep? d (ls ++ rs) = none := by
  rw [tooDeep?_append, left, flat, Int.add_zero, right]
  rfl

theorem plus (left : Writes (.chain .sum) s f n) (right : Writes .operand t g n) :
    Writes (.chain .sum) (s ++ " + " ++ t) (.gate .or f g 0) n := by
  intro position back ended
  obtain ⟨ls, cutLeft, derivedLeft, shallowLeft⟩ :=
    left position (" + ".toList ++ (t.toList ++ back)) rfl
  have sign := Token.cuts_plus (position + s.toList.length) (t.toList ++ back)
  obtain ⟨rs, cutRight, derivedRight, shallowRight⟩ :=
    right (position + (s.toList ++ " + ".toList).length) back ended
  have cuts := (cutLeft.append sign).append cutRight
  rw [← String.toList_append, ← String.toList_append, List.append_assoc] at cuts
  refine ⟨_, cuts, ?_, fun d within => ?_⟩
  · exact .join (k := .or) derivedLeft rfl (Formula.derives_chain derivedRight .exclusive)
  · have low : ¬(maxDepth : Int) < d + 0 := by omega
    apply tooDeep?_pair derivedLeft.nesting_eq_zero (shallowLeft d within)
    exact (if_neg low).trans ((Int.add_zero d).symm ▸ shallowRight d within)

theorem beside (left : Writes (.chain .product) s f n) (right : Writes .operand t g n)
    (apart : ∀ back, endsKeyword (t.toList ++ back) = true) :
    Writes (.chain .product) (s ++ t) (.gate .and f g 0) n := by
  intro position back ended
  obtain ⟨ls, cutLeft, derivedLeft, shallowLeft⟩ := left position (t.toList ++ back) (apart back)
  obtain ⟨rs, cutRight, derivedRight, shallowRight⟩ :=
    right (position + s.toList.length) back ended
  have cuts := cutLeft.append cutRight
  rw [← String.toList_append] at cuts
  refine ⟨_, cuts, .juxtapose derivedLeft derivedRight, fun d within => ?_⟩
  exact tooDeep?_pair derivedLeft.nesting_eq_zero (shallowLeft d within) (shallowRight d within)

theorem tooDeep?_enclosed {l r : Token} {ts : List Token} {d : Int} (opening : l.kind = .opening)
    (closing : r.kind = .closing) (flat : nesting ts = 0) (within : d + 1 ≤ maxDepth)
    (inner : tooDeep? (d + 1) ts = none) : tooDeep? d (l :: ts ++ [r]) = none := by
  have deep : ¬(maxDepth : Int) < d + 1 := by omega
  have low : ¬(maxDepth : Int) < d + 1 + 0 + -1 := by omega
  rw [List.cons_append, tooDeep?, rise_of_opening opening, if_neg deep, tooDeep?_append, inner,
    flat, Option.none_or, tooDeep?, rise_of_closing closing, if_neg low, tooDeep?]

theorem enclosed (inner : Writes (.chain .sum) s f n) :
    Writes .operand ("(" ++ s ++ ")") f (n + 1) := by
  intro position back ended
  have opening := Token.cuts_sign (rfl : Lexeme.sign? '(' = some .opening) position
    (s.toList ++ ([')'] ++ back))
  obtain ⟨ts, cut, derived, shallow⟩ := inner (position + 1) ([')'] ++ back) rfl
  have closing := Token.cuts_sign (rfl : Lexeme.sign? ')' = some .closing)
    (position + (['('] ++ s.toList).length) back
  have cuts := (opening.append cut).append closing
  have spelled : ("(" ++ s ++ ")").toList = ['('] ++ s.toList ++ [')'] := by
    rw [String.toList_append, String.toList_append]
    rfl
  rw [← spelled] at cuts
  refine ⟨_, cuts, ?_, fun d within => ?_⟩
  · exact Formula.derives_plain (.enclosed rfl derived rfl)
  · rw [Nat.cast_succ] at within
    apply tooDeep?_enclosed rfl rfl derived.nesting_eq_zero
    · omega
    · exact shallow (d + 1) (by omega)

theorem sum {pieces : List (String × Formula)} (first : Writes (.chain .sum) s f n)
    (each : ∀ p ∈ pieces, Writes .operand p.1 p.2 n) :
    Writes (.chain .sum) (" + ".intercalate (s :: pieces.map Prod.fst))
      (Implicant.joined .or false (f :: pieces.map Prod.snd)) n := by
  rw [intercalate_eq_foldl, Implicant.joined, List.foldl_map, List.foldl_map]
  induction pieces generalizing s f with
  | nil => exact first
  | cons p ps ih =>
    apply ih (first.plus (each p (List.mem_cons_self ..)))
    exact fun q hq => each q (List.mem_cons_of_mem _ hq)

theorem product {pieces : List (String × Formula)} (first : Writes (.chain .product) s f n)
    (each : ∀ p ∈ pieces, Writes .operand p.1 p.2 n)
    (apart : ∀ p ∈ pieces, ∀ back, endsKeyword (p.1.toList ++ back) = true) :
    Writes (.chain .product) (String.join (s :: pieces.map Prod.fst))
      (Implicant.joined .and true (f :: pieces.map Prod.snd)) n := by
  rw [join_eq_foldl, Implicant.joined, List.foldl_map, List.foldl_map]
  induction pieces generalizing s f with
  | nil => exact first
  | cons p ps ih =>
    apply ih (first.beside (each p (List.mem_cons_self ..)) (apart p (List.mem_cons_self ..)))
    · exact fun q hq => each q (List.mem_cons_of_mem _ hq)
    · exact fun q hq => apart q (List.mem_cons_of_mem _ hq)

theorem ofText (h : Writes (.chain .sum) s f n) (shallow : n ≤ maxDepth) :
    ∃ p, Formula.ofText s = .ok p ∧ p.formula.shape = f ∧ p.names = p.formula.names := by
  obtain ⟨ts, cuts, derived, none⟩ := h 0 [] rfl
  obtain ⟨p, accepted, shape, _⟩ := (Formula.ofTokens_of_derives derived
    (rfl : (Token.finish (0 + s.toList.length)).kind = .finish)).1 (none 0 (by omega))
  have scanned : Formula.ofText s = Formula.ofTokens (ts ++ [.finish (0 + s.toList.length)]) := by
    rw [Formula.ofText, Token.scan, cuts.scanFrom_eq]
  exact ⟨p, scanned.trans accepted, shape, (Formula.derives_of_ofTokens accepted).2⟩

end Writes

end Switching
