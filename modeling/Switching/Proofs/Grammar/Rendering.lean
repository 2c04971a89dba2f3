import Switching.Formula.Render
import Switching.Proofs.Cutting
import Switching.Proofs.Fold
import Switching.Proofs.Grammar.Completeness

/-! A formula written out and read back. Both notations put every gate between parentheses, so the
text is cut into the tokens of one operand wherever it stands, and as many parentheses are open at
a leaf as there are gates on the way to it. -/
namespace Switching

namespace Formula

variable {f l r : Formula} {k : Gate} {i : Int} {n : Notation} {x : String} {d : Int}
  {ts : List Token}

def isGate : Formula → Bool
  | gate .. => true
  | _ => false

def paths : Formula → List (List Formula)
  | var x i => [[var x i]]
  | const b i => [[const b i]]
  | not f i => f.paths.map (not f i :: ·)
  | gate k l r i => (l.paths ++ r.paths).map (gate k l r i :: ·)

def gateDepth : Formula → Nat
  | var .. | const .. => 0
  | not f _ => f.gateDepth
  | gate _ l r _ => max l.gateDepth r.gateDepth + 1

theorem paths_ne_nil (f : Formula) : f.paths ≠ [] := by
  induction f with
  | var x i => exact List.cons_ne_nil _ _
  | const b i => exact List.cons_ne_nil _ _
  | not f i ih => simpa [paths] using ih
  | gate k l r i left _ => simp [paths, left]

theorem gateDepth_le_iff (f : Formula) (d : Nat) :
    f.gateDepth ≤ d ↔ ∀ path ∈ f.paths, path.countP isGate ≤ d := by
  induction f generalizing d with
  | var x i => simp [gateDepth, paths, isGate]
  | const b i => simp [gateDepth, paths, isGate]
  | not f i ih => simp [gateDepth, paths, isGate, ih]
  | gate k l r i left right =>
    cases d with
    | zero =>
      obtain ⟨path, some⟩ := List.exists_mem_of_ne_nil l.paths l.paths_ne_nil
      simp only [gateDepth, paths, Nat.add_one_le_iff, Nat.not_lt_zero, false_iff]
      intro all
      have one := all (gate k l r i :: path) (by simp [some])
      simp [isGate] at one
    | succ d =>
      have step : ∀ path, (gate k l r i :: path).countP isGate = path.countP isGate + 1 :=
        fun path => List.countP_cons_of_pos rfl
      simp only [gateDepth, paths, List.forall_mem_map, step, Nat.add_le_add_iff_right,
        List.forall_mem_append, ← left, ← right]
      exact Nat.max_le

@[simp]
theorem render_var (n : Notation) (x : String) (i : Int) : (var x i).render n = x := by
  rw [render, fold, foldM_eq_combine]
  rfl

@[simp]
theorem render_const (n : Notation) (b : Bool) (i : Int) : (const b i).render n = bitText b := by
  rw [render, fold, foldM_eq_combine]
  rfl

@[simp]
theorem render_not (n : Notation) (f : Formula) (i : Int) :
    (not f i).render n = n.negation ++ f.render n := by
  simp only [render, fold, foldM_eq_combine]
  rfl

@[simp]
theorem render_gate (n : Notation) (k : Gate) (l r : Formula) (i : Int) :
    (gate k l r i).render n =
      "(" ++ l.render n ++ " " ++ n.gate k ++ " " ++ r.render n ++ ")" := by
  simp only [render, fold, foldM_eq_combine]
  rfl

/-- A notation that is read as it is meant: a negation as a sign in front, and a gate as itself
where no word goes on. -/
structure Notation.Readable (n : Notation) : Prop where
  negation : ∀ position back, ∃ t : Token, t.isNegation = true ∧ t.IsPrefix ∧
    Token.Cuts position n.negation.toList [t] back
  gate : ∀ k position back, endsKeyword back = true → ∃ t : Token, t.kind = .gate k ∧
    Token.Cuts position (n.gate k).toList [t] back

theorem Notation.readable_keywords : Notation.keywords.Readable where
  negation position back := by
    have word : Token.Cuts position "NOT".toList [⟨.negation, "NOT", position, 3⟩] (' ' :: back) :=
      Token.cuts_word (by decide) (by decide) rfl rfl position
    exact ⟨_, rfl, (rfl : Token.isPrime _ = false), word.append (Token.cuts_blank _ back)⟩
  gate k position back ended := by
    have spelled : Capitalized k.name ∧ k.name.toList.all isNameChar = true := by
      cases k <;> decide
    exact ⟨_, rfl, Token.cuts_word spelled.1 spelled.2 (by rw [Lexeme.keyword?_gate]; rfl) ended
      position⟩

theorem Notation.readable_signs : Notation.signs.Readable where
  negation position back :=
    ⟨_, rfl, (rfl : Token.isPrime _ = false), Token.cuts_sign rfl position back⟩
  gate k position back _ := by
    cases k <;> exact ⟨_, rfl, Token.cuts_sign rfl position back⟩

theorem derives_not {t : Token} (negation : t.isNegation = true) (before : t.IsPrefix)
    (h : Derives Token.IsPrefix .operand ts f) :
    Derives Token.IsPrefix .operand (t :: ts) (.not f 0) := by
  cases h with
  | @signed signs ts primes f admitted one behind =>
    exact .signed (List.forall_mem_cons.mpr ⟨⟨negation, before⟩, admitted⟩) one behind

theorem derives_plain (h : Derives Token.IsPrefix .primary ts f) :
    Derives Token.IsPrefix .operand ts f := by
  have alone := Derives.signed (List.forall_mem_nil _) h (List.forall_mem_nil _)
  rw [List.nil_append, List.append_nil] at alone
  exact alone

theorem derives_chain (h : Derives Token.IsPrefix .operand ts f) (level : Tier) :
    Derives Token.IsPrefix (.chain level) ts f := by
  cases level with
  | sum => exact .first (.first (.first h))
  | exclusive => exact .first (.first h)
  | product => exact .first h

theorem derives_part (h : Derives Token.IsPrefix .operand ts f) (level : Tier) :
    Derives Token.IsPrefix level.part ts f := by
  cases level with
  | sum => exact derives_chain h .exclusive
  | exclusive => exact derives_chain h .product
  | product => exact h

theorem derives_sum {front back : List Token} {t : Token} {g : Formula} (kind : t.kind = .gate k)
    (left : Derives Token.IsPrefix .operand front f)
    (right : Derives Token.IsPrefix .operand back g) :
    Derives Token.IsPrefix (.chain .sum) (front ++ t :: back) (.gate k f g 0) := by
  have joined := Derives.join (derives_chain left k.tier) kind (derives_part right k.tier)
  generalize k.tier = level at joined
  cases level with
  | sum => exact joined
  | exclusive => exact .first joined
  | product => exact .first (.first joined)

theorem tooDeep?_gate {o t c : Token} {ls rs : List Token} (opening : o.kind = .opening)
    (kind : t.kind = .gate k) (closing : c.kind = .closing) (flatLeft : nesting ls = 0)
    (flatRight : nesting rs = 0) (bound : d ≤ maxDepth)
    (left : ∀ d ≤ (maxDepth : Int), tooDeep? d ls = none ↔ d + l.gateDepth ≤ maxDepth)
    (right : ∀ d ≤ (maxDepth : Int), tooDeep? d rs = none ↔ d + r.gateDepth ≤ maxDepth) :
    tooDeep? d (o :: (ls ++ t :: rs) ++ [c]) = none ↔ d + (gate k l r i).gateDepth ≤ maxDepth := by
  have rise : t.rise = 0 := by simp [Token.rise, kind]
  rw [List.cons_append, tooDeep?, rise_of_opening opening]
  by_cases deep : (maxDepth : Int) < d + 1
  · rw [if_pos deep]
    simp only [gateDepth, reduceCtorEq, false_iff, Nat.cast_add, Nat.cast_max, Nat.cast_one]
    omega
  · rw [if_neg deep]
    have within := Int.not_lt.mp deep
    have low : ¬(maxDepth : Int) < d + 1 + -1 := by omega
    rw [tooDeep?_append, tooDeep?_append, nesting_append, nesting_cons, flatLeft, flatRight, rise,
      tooDeep?, tooDeep?, rise, rise_of_closing closing, tooDeep?]
    simp only [Int.add_zero, if_neg deep, if_neg low, Option.or_none, Option.or_eq_none_iff,
      left _ within, right _ within, gateDepth, Nat.cast_add, Nat.cast_max, Nat.cast_one]
    omega

theorem exists_cuts_gate {left right : List Char} {P Q : List Token → Prop}
    (readable : n.Readable) (k : Gate)
    (first : ∀ position back, endsKeyword back = true →
      ∃ ts, Token.Cuts position left ts back ∧ P ts)
    (second : ∀ position back, endsKeyword back = true →
      ∃ ts, Token.Cuts position right ts back ∧ Q ts) (position : Nat) (back : List Char) :
    ∃ (o : Token) (ls : List Token) (t : Token) (rs : List Token) (c : Token),
      o.kind = .opening ∧ t.kind = .gate k ∧ c.kind = .closing ∧ P ls ∧ Q rs ∧
      Token.Cuts position
        (['('] ++ left ++ [' '] ++ (n.gate k).toList ++ [' '] ++ right ++ [')'])
        (o :: (ls ++ t :: rs) ++ [c]) back := by
  -- each piece is cut with all the pieces behind it present
  let front := ['('] ++ left ++ [' ']
  let rest := right ++ ([')'] ++ back)
  obtain ⟨o, starts, opening⟩ : ∃ o : Token, o.kind = .opening ∧ Token.Cuts position ['('] [o]
      (left ++ ([' '] ++ ((n.gate k).toList ++ ([' '] ++ rest)))) :=
    ⟨_, rfl, Token.cuts_sign rfl position _⟩
  obtain ⟨ls, cutLeft, holdsLeft⟩ := first (position + ['('].length)
    ([' '] ++ ((n.gate k).toList ++ ([' '] ++ rest))) rfl
  obtain ⟨t, kind, cut⟩ := readable.gate k (position + front.length) ([' '] ++ rest) rfl
  obtain ⟨rs, cutRight, holdsRight⟩ := second
    (position + (front ++ (n.gate k).toList ++ [' ']).length) ([')'] ++ back) rfl
  obtain ⟨c, ends, closing⟩ : ∃ c : Token, c.kind = .closing ∧ Token.Cuts
      (position + (front ++ (n.gate k).toList ++ [' '] ++ right).length) [')'] [c] back :=
    ⟨_, rfl, Token.cuts_sign rfl _ back⟩
  have cuts := (((((opening.append cutLeft).append (Token.cuts_blank _ _)).append cut).append
    (Token.cuts_blank _ _)).append cutRight).append closing
  have whole : [o] ++ ls ++ [] ++ [t] ++ [] ++ rs ++ [c] = o :: (ls ++ t :: rs) ++ [c] := by simp
  rw [whole] at cuts
  exact ⟨o, ls, t, rs, c, starts, kind, ends, holdsLeft, holdsRight, cuts⟩

/-- Wherever a rendered formula stands with no word going on behind it, it is cut into the tokens of
an operand, whose parentheses are as deep as the formula has gates on a way. -/
theorem exists_operand (readable : n.Readable) (f : Formula) (names : ∀ x ∈ f.names, IsIdentifier x)
    (position : Nat) (back : List Char) (ended : endsKeyword back = true) :
    ∃ ts, Token.Cuts position (f.render n).toList ts back ∧
      Derives Token.IsPrefix .operand ts f.shape ∧
      ∀ d ≤ (maxDepth : Int), tooDeep? d ts = none ↔ d + f.gateDepth ≤ maxDepth := by
  -- for every text behind it, as the word at its end is cut where that text begins
  induction f generalizing position back with
  | var x i =>
    have name := names x (mem_names_var.mpr rfl)
    rw [render_var]
    refine ⟨_, Token.cuts_identifier name ended position, derives_plain (.name rfl),
      fun d bound => ?_⟩
    simp [tooDeep?, Token.rise, gateDepth, bound]
  | const b i =>
    rw [render_const]
    refine ⟨_, Token.cuts_bit b position ended, ?_, fun d bound => ?_⟩
    · cases b <;> exact derives_plain (.constant rfl)
    · simp [tooDeep?, Token.rise, gateDepth, bound]
  | not f i ih =>
    obtain ⟨t, negation, before, cut⟩ := readable.negation position ((f.render n).toList ++ back)
    obtain ⟨ts, cuts, derived, deep⟩ := ih (fun x hx => names x (mem_names_not.mpr hx))
      (position + n.negation.toList.length) back ended
    refine ⟨t :: ts, ?_, derives_not negation before derived, fun d bound => ?_⟩
    · rw [render_not, String.toList_append]
      exact cut.append cuts
    · rw [tooDeep?, rise_of_negation negation, Int.add_zero, if_neg (Int.not_lt.mpr bound)]
      exact deep d bound
  | gate k l r i left right =>
    obtain ⟨o, ls, t, rs, c, opening, kind, closing, ⟨derivedLeft, deepLeft⟩,
        ⟨derivedRight, deepRight⟩, cuts⟩ := exists_cuts_gate readable k
      (left fun x hx => names x (mem_names_gate.mpr (.inl hx)))
      (right fun x hx => names x (mem_names_gate.mpr (.inr hx))) position back
    have spelled : ((gate k l r i).render n).toList = ['('] ++ (l.render n).toList ++ [' '] ++
        (n.gate k).toList ++ [' '] ++ (r.render n).toList ++ [')'] := by
      rw [render_gate]
      simp only [String.toList_append]
      rfl
    have inner := derives_sum kind derivedLeft derivedRight
    rw [spelled]
    exact ⟨_, cuts, derives_plain (.enclosed opening inner closing), fun d bound =>
      tooDeep?_gate opening kind closing derivedLeft.nesting_eq_zero
        derivedRight.nesting_eq_zero bound deepLeft deepRight⟩

theorem names_eq_of_shape {g : Formula} (same : g.shape = f.shape) : g.names = f.names :=
  g.pairwise_names.eq_of_mem_iff f.pairwise_names fun x => by
    rw [← mem_names_shape, same, mem_names_shape]

theorem ofText_render_of_readable (readable : n.Readable) (names : ∀ x ∈ f.names, IsIdentifier x) :
    (f.gateDepth ≤ maxDepth →
      ∃ p, ofText (f.render n) = .ok p ∧ p.formula.shape = f.shape ∧ p.names = f.names) ∧
    (maxDepth < f.gateDepth → ∃ t, ofText (f.render n) = .error (.nestedTooDeeply t)) := by
  obtain ⟨ts, cuts, derived, deep⟩ := exists_operand readable f names 0 [] rfl
  let last := Token.finish (0 + (f.render n).toList.length)
  have scanned : ofText (f.render n) = ofTokens (ts ++ [last]) := by
    rw [ofText, Token.scan, cuts.scanFrom_eq]
  have level := deep 0 (by decide)
  rw [Int.zero_add, Nat.cast_le] at level
  obtain ⟨whole, cut⟩ := ofTokens_of_derives (derives_chain derived .sum)
    (rfl : last.kind = .finish)
  rw [scanned]
  constructor
  · intro within
    obtain ⟨p, accepted, shape, _⟩ := whole (level.mpr within)
    exact ⟨p, accepted, shape, (derives_of_ofTokens accepted).2.trans (names_eq_of_shape shape)⟩
  · intro beyond
    cases found : tooDeep? 0 ts with
    | none => exact absurd (level.mp found) (Nat.not_le.mpr beyond)
    | some t => exact ⟨t, cut t found⟩

/-- Both texts of a formula whose names are identifiers are read back as the formula, with its
names, if no way from the root to a leaf has more gates than parentheses may be nested. If some way
has more, both are refused for their nesting. -/
theorem ofText_render (names : ∀ x ∈ f.names, IsIdentifier x) :
    ∀ text ∈ [f.infixText, f.symbolText],
      ((∀ path ∈ f.paths, path.countP isGate ≤ maxDepth) →
        ∃ p, ofText text = .ok p ∧ p.formula.same f = true ∧ p.names = f.names) ∧
      ((∃ path ∈ f.paths, maxDepth < path.countP isGate) →
        ∃ t d, ofText text = .error (.nestedTooDeeply t) ∧
          (Fault.nestedTooDeeply t).diagnostic? = some d ∧ d.label = "Syntax Error" ∧
          d.message = "Expression is nested too deeply") := by
  intro text rendered
  obtain ⟨n, readable, rfl⟩ : ∃ n : Notation, n.Readable ∧ text = f.render n := by
    rcases List.mem_cons.mp rendered with rfl | rendered
    · exact ⟨_, Notation.readable_keywords, rfl⟩
    · exact ⟨_, Notation.readable_signs, List.mem_singleton.mp rendered⟩
  obtain ⟨whole, cut⟩ := ofText_render_of_readable readable names
  rw [gateDepth_le_iff] at whole
  constructor
  · intro within
    obtain ⟨p, accepted, shape, met⟩ := whole within
    exact ⟨p, accepted, same_iff.mpr shape, met⟩
  · rintro ⟨path, some, beyond⟩
    have deep : maxDepth < f.gateDepth := by
      refine Nat.not_le.mp fun within => ?_
      exact Nat.not_le.mpr beyond ((gateDepth_le_iff f _).mp within path some)
    obtain ⟨t, refused⟩ := cut deep
    exact ⟨t, _, refused, rfl, rfl, rfl⟩

theorem ofText_render_tower :
    let tower := fun n : Nat =>
      (fun f => gate .nand (not f 7) (var "NOT_1" (-1)) 7)^[n] (const true 3)
    (∀ x ∈ (tower 100).names, IsIdentifier x) ∧
    (∃ p, ofText (tower 100).symbolText = .ok p ∧ p.formula.same (tower 100) = true ∧
      p.names = ["NOT_1"]) ∧
    ∃ t, ofText (tower 101).infixText = .error (.nestedTooDeeply t) := by
  intro tower
  have names : ∀ x ∈ (tower 100).names, IsIdentifier x := by decide +kernel
  have more : ∀ x ∈ (tower 101).names, IsIdentifier x := by decide +kernel
  have within : ∀ path ∈ (tower 100).paths, path.countP isGate ≤ maxDepth := by decide +kernel
  have beyond : ∃ path ∈ (tower 101).paths, maxDepth < path.countP isGate := by decide +kernel
  have met : (tower 100).names = ["NOT_1"] := by decide +kernel
  obtain ⟨whole, _⟩ := ofText_render names (tower 100).symbolText (by simp)
  obtain ⟨_, cut⟩ := ofText_render more (tower 101).infixText (by simp)
  obtain ⟨t, _, refused, _⟩ := cut beyond
  exact ⟨names, met ▸ whole within, t, refused⟩

end Formula

end Switching
