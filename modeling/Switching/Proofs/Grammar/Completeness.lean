import Switching.Diagnostic
import Switching.Proofs.Grammar.Nesting
import Switching.Proofs.Grammar.Soundness

/-! What is derived is read. A derivation drives the reader over its tokens to the formula that it
prescribes, unless a parenthesis opens one level too many: then the reader stops there. -/
namespace Switching

namespace Reader

def Ended : Phrase → List Token → Prop
  | .chain level, rest =>
    ∀ t ∈ rest.head?, t.isPrime = false ∧ ∀ l, level.rank < Tier.rank l → joint? l t = none
  | .operand, rest => ∀ t ∈ rest.head?, t.isPrime = false
  | .primary, _ => True

def Reaches : Phrase → Reader → Formula → Reader → Prop
  | .chain level, r, f, s => read (.phrase (.chain level)) r = read (.onward level f) s
  | .operand, r, f, s => read (.phrase .operand) r = (.ok f, s)
  | .primary, r, f, s => read (.phrase .primary) r = (.ok f, s)

/-- The reader comes to a formula of this shape, with the rest of its tokens ahead, or to the
parenthesis that opens one level too many. -/
def Driven (p : Phrase) (r : Reader) (ts : List Token) (f : Formula) (rest : List Token) : Prop :=
  (tooDeep? r.depth ts = none → ∃ g s, g.shape = f ∧ s.ahead = rest ∧ s.depth = r.depth ∧
    Reaches p r g s) ∧
  ∀ t, tooDeep? r.depth ts = some t → ∃ s, read (.phrase p) r = (.error (.nestedTooDeeply t), s)

variable {r s : Reader} {f g : Formula} {t : Token} {ts rest front back : List Token} {level : Tier}
  {k : Gate} {written : Bool}

theorem joint?_gate (kind : t.kind = .gate k) (level : Tier) :
    joint? level t = if k.tier = level then some (k, true) else none := by
  simp [joint?, kind]

theorem joint?_starts (starts : t.kind.startsOperand = true) (level : Tier) :
    joint? level t = if level = .product then some (.and, false) else none := by
  unfold joint?
  split
  · rename_i k kind
    simp [kind, TokenKind.startsOperand] at starts
  · simp [starts]

theorem joint?_closing (kind : t.kind = .closing) (level : Tier) : joint? level t = none := by
  simp [joint?, kind, TokenKind.startsOperand]

theorem ended_part (ended : Ended (.chain level) rest) : Ended level.part rest := by
  cases level with
  | sum =>
    intro t ht
    obtain ⟨prime, tighter⟩ := ended t ht
    exact ⟨prime, fun l looser => tighter l (Nat.lt_trans (by decide) looser)⟩
  | exclusive =>
    intro t ht
    obtain ⟨prime, tighter⟩ := ended t ht
    exact ⟨prime, fun l looser => tighter l (Nat.lt_trans (by decide) looser)⟩
  | product => exact fun t ht => (ended t ht).1

theorem read_of_reaches (ended : Ended (.chain level) s.ahead)
    (reached : Reaches level.part r g s) :
    read (.phrase level.part) r = (.ok g, s) := by
  cases level with
  | sum => exact Eq.trans reached (read_onward_end fun t ht => (ended t ht).2 _ (by decide))
  | exclusive => exact Eq.trans reached (read_onward_end fun t ht => (ended t ht).2 _ (by decide))
  | product => exact reached

theorem driven_more (k : Gate) (written : Bool) (middle : List Token)
    (left : Driven (.chain level) r front f (middle ++ back ++ rest))
    (flat : tooDeep? (r.depth + nesting front) (middle ++ back) = tooDeep? r.depth back)
    (head : ∃ t ts, middle ++ back ++ rest = t :: ts ∧ joint? level t = some (k, written))
    (right : ∀ s : Reader, s.ahead = middle ++ back ++ rest → s.depth = r.depth →
      Driven level.part (if written then s.advance else s) back g rest)
    (ended : Ended (.chain level) rest) :
    Driven (.chain level) r (front ++ (middle ++ back)) (.gate k f g 0) rest := by
  obtain ⟨whole, cut⟩ := left
  obtain ⟨t, ts, first, joint⟩ := head
  rw [Driven, tooDeep?_append, flat]
  cases deep : tooDeep? r.depth front with
  | some u =>
    rw [Option.some_or]
    refine ⟨fun none => (by cases none), fun v found => ?_⟩
    cases found
    exact cut u deep
  | none =>
    obtain ⟨f', s, shape, ahead, depth, reached⟩ := whole deep
    obtain ⟨whole, cut⟩ := right s ahead depth
    have same : (if written then s.advance else s).depth = r.depth := by
      cases written <;> simp [depth]
    rw [same] at whole cut
    rw [Option.none_or]
    constructor
    · intro none
      obtain ⟨g', s', shape', ahead', depth', reached'⟩ := whole none
      have next := read_of_reaches (ahead'.symm ▸ ended) reached'
      refine ⟨(join k f' g' s').1, (join k f' g' s').2, ?_, ahead', depth',
        Eq.trans reached (read_onward (ahead.trans first) joint next)⟩
      rw [join, Formula.shape, shape, shape']
    · intro u found
      obtain ⟨s', next⟩ := cut u found
      exact ⟨s', Eq.trans reached (read_onward_fault (ahead.trans first) joint next)⟩

theorem negations_eq {signs : List Token} (ahead : r.ahead = signs ++ rest)
    (before : ∀ t ∈ signs, t.isNegation = true) (behind : ∀ t ∈ rest.head?, t.isNegation = false) :
    r.negations = signs.length := by
  rw [negations, ahead, List.takeWhile_append_of_pos before]
  cases rest with
  | nil => simp
  | cons t ts => simp [behind t rfl]

theorem primes_eq {primes : List Token} (ahead : s.ahead = primes ++ rest)
    (before : ∀ t ∈ primes, t.isPrime = true) (behind : ∀ t ∈ rest.head?, t.isPrime = false) :
    s.primes = primes.length := by
  rw [Reader.primes, ahead, List.takeWhile_append_of_pos before]
  cases rest with
  | nil => simp
  | cons t ts => simp [behind t rfl]

theorem driven_operand {signs primes : List Token} (ahead : r.ahead = signs ++ ts ++ primes ++ rest)
    (bound : r.depth ≤ maxDepth) (before : ∀ t ∈ signs, t.isNegation = true)
    (behind : ∀ t ∈ primes, t.isPrime = true) (flat : nesting ts = 0)
    (head : ∀ t ∈ (ts ++ (primes ++ rest)).head?, t.isNegation = false)
    (inner : ∀ s : Reader, s.ahead = ts ++ (primes ++ rest) → s.depth = r.depth →
      Driven .primary s ts f (primes ++ rest))
    (ended : Ended .operand rest) :
    Driven .operand r (signs ++ ts ++ primes) (.negated signs.length (.negated primes.length f))
      rest := by
  have split : r.ahead = signs ++ (ts ++ (primes ++ rest)) := by
    simpa only [List.append_assoc] using ahead
  have count := negations_eq split before head
  have skipped : (r.skip r.negations).ahead = ts ++ (primes ++ rest) := by
    rw [ahead_skip, count, split, List.drop_left]
  obtain ⟨whole, cut⟩ := inner _ skipped (depth_skip _ r)
  have within : (r.depth : Int) ≤ maxDepth := by exact_mod_cast bound
  have signsFlat : ∀ t ∈ signs, t.rise = 0 := fun t ht => rise_of_negation (before t ht)
  have primesFlat : ∀ t ∈ primes, t.rise = 0 :=
    fun t ht => rise_of_negation (isNegation_of_isPrime (behind t ht))
  have same : tooDeep? r.depth (signs ++ ts ++ primes) = tooDeep? r.depth ts := by
    rw [tooDeep?_append, tooDeep?_append, nesting_append, nesting_of_flat signsFlat, flat]
    simp only [Int.add_zero]
    rw [tooDeep?_of_flat within signsFlat, tooDeep?_of_flat within primesFlat, Option.none_or,
      Option.or_none]
  rw [depth_skip] at whole cut
  rw [Driven, same]
  constructor
  · intro none
    obtain ⟨g, s, shape, left, depth, reached⟩ := whole none
    refine ⟨_, _, ?_, ?_, ?_, read_operand reached⟩
    · rw [shape_negate, shape, ← Formula.negated_add, Nat.add_comm, count,
        primes_eq left behind ended]
    · rw [ahead_negate, ahead_skip, primes_eq left behind ended, left, List.drop_left]
    · rw [depth_negate, depth_skip, depth]
  · intro t found
    obtain ⟨s, stopped⟩ := cut t found
    exact ⟨s, read_operand_fault stopped⟩

theorem driven_enclosed {c : Token} (ahead : r.ahead = t :: (ts ++ c :: rest))
    (kind : t.kind = .opening) (closing : c.kind = .closing) (flat : nesting ts = 0)
    (inner : ∀ s : Reader, s.ahead = ts ++ c :: rest → s.depth = r.depth + 1 → s.depth ≤ maxDepth →
      Driven (.chain .sum) s ts f (c :: rest)) :
    Driven .primary r (t :: (ts ++ [c])) f rest := by
  rw [Driven, tooDeep?, rise_of_opening kind]
  by_cases deep : maxDepth < r.depth + 1
  · have beyond : (maxDepth : Int) < r.depth + 1 := by exact_mod_cast deep
    rw [if_pos beyond]
    refine ⟨fun none => (by cases none), fun u found => ?_⟩
    cases found
    exact ⟨_, read_tooDeep ahead kind deep⟩
  · have within : ¬(maxDepth : Int) < r.depth + 1 := by exact_mod_cast deep
    have level : r.advance.deepen.depth = r.depth + 1 := by simp [deepen]
    have last : tooDeep? (r.depth + 1) (ts ++ [c]) = tooDeep? (r.depth + 1) ts := by
      have low : ¬(maxDepth : Int) < r.depth + 1 + 0 + -1 := by omega
      rw [tooDeep?_append, flat, tooDeep?, rise_of_closing closing, if_neg low, tooDeep?,
        Option.or_none]
    obtain ⟨whole, cut⟩ := inner r.advance.deepen (by simp [ahead]) level (by omega)
    have cast : ((r.advance.deepen.depth : Nat) : Int) = r.depth + 1 := by
      rw [level]
      rfl
    rw [cast] at whole cut
    rw [if_neg within, last]
    constructor
    · intro none
      obtain ⟨g, s, shape, left, depth, reached⟩ := whole none
      have ended : ∀ u ∈ s.ahead.head?, joint? .sum u = Option.none := by
        simpa [left] using joint?_closing closing .sum
      have read := read_enclosed ahead kind deep (Eq.trans reached (read_onward_end ended))
      have closed : s.peek.kind = .closing := by simpa [peek, left] using closing
      rw [if_pos closed] at read
      refine ⟨g, _, shape, ?_, ?_, read⟩
      · simp [left]
      · simp [surface, depth, level]
    · intro u found
      obtain ⟨s, stopped⟩ := cut u found
      exact ⟨s, read_enclosed_fault ahead kind deep stopped⟩

theorem isPrime_eq_false (allowed : t.isNegation = true → Token.IsPrefix t) :
    t.isPrime = false := by
  by_cases negation : t.isNegation = true
  · exact allowed negation
  · rw [Token.isPrime, Bool.and_eq_false_iff]
    exact .inl (by simpa [Token.isNegation] using negation)

theorem driven {p : Phrase} (h : Derives Token.IsPrefix p ts f) (r : Reader)
    (rest : List Token) (ahead : r.ahead = ts ++ rest) (bound : r.depth ≤ maxDepth)
    (ended : Ended p rest) : Driven p r ts f rest := by
  induction h generalizing r rest with
  | first _ ih =>
    obtain ⟨whole, cut⟩ := ih r rest ahead bound (ended_part ended)
    refine ⟨fun none => ?_, fun t found => ?_⟩
    · obtain ⟨g, s, shape, left, depth, reached⟩ := whole none
      exact ⟨g, s, shape, left, depth, read_chain (read_of_reaches (left.symm ▸ ended) reached)⟩
    · obtain ⟨s, stopped⟩ := cut t found
      exact ⟨s, read_chain_fault stopped⟩
  | @join front back t f g k left kind right ihLeft ihRight =>
    have before : Ended (.chain k.tier) (t :: (back ++ rest)) := by
      intro u hu
      cases hu
      refine ⟨by simp [Token.isPrime, kind], fun l tighter => ?_⟩
      rw [joint?_gate kind, if_neg fun same => ?_]
      exact Nat.lt_irrefl _ (same ▸ tighter)
    have rise : t.rise = 0 := by simp [Token.rise, kind]
    have within : ¬(maxDepth : Int) < r.depth := by exact_mod_cast Nat.not_lt.mpr bound
    refine driven_more k true [t]
      (ihLeft r _ (by simpa using ahead) bound before) ?_ ⟨t, back ++ rest, rfl, ?_⟩ ?_ ended
    · rw [left.nesting_eq_zero, Int.add_zero, List.singleton_append, tooDeep?, rise, Int.add_zero,
        if_neg within]
    · rw [joint?_gate kind, if_pos rfl]
    · intro s behind depth
      have driven := ihRight s.advance rest (by simp [behind]) (by simpa [depth] using bound)
        (ended_part ended)
      exact driven
  | @juxtapose front back f g left right ihLeft ihRight =>
    obtain ⟨t, ts, rfl, starts, allowed⟩ := right.exists_head
    have before : Ended (.chain .product) (t :: ts ++ rest) := by
      intro u hu
      cases hu
      refine ⟨isPrime_eq_false allowed, fun l tighter => ?_⟩
      cases l <;> simp [Tier.rank] at tighter
    refine driven_more .and false []
      (ihLeft r _ (by simpa using ahead) bound before) ?_ ⟨t, ts ++ rest, rfl, ?_⟩ ?_ ended
    · rw [left.nesting_eq_zero, Int.add_zero, List.nil_append]
    · rw [joint?_starts starts, if_pos rfl]
    · intro s behind depth
      exact ihRight s rest behind (depth ▸ bound) (ended_part ended)
  | @signed signs ts primes f before one behind ih =>
    have head : ∀ t ∈ (ts ++ (primes ++ rest)).head?, t.isNegation = false := by
      obtain ⟨t, tail, rfl, _, plain⟩ := one.exists_primary_head
      simpa using plain
    exact driven_operand ahead bound (fun t ht => (before t ht).1) behind one.nesting_eq_zero head
      (fun s ahead depth => ih s _ ahead (depth ▸ bound) trivial) ended
  | @name t kind =>
    have within : ¬(maxDepth : Int) < r.depth := by exact_mod_cast Nat.not_lt.mpr bound
    rw [Driven]
    simp only [tooDeep?, Token.rise, kind, Int.add_zero, if_neg within]
    refine ⟨fun _ => ⟨_, _, rfl, ?_, ?_, read_name ahead kind⟩, fun u found => by cases found⟩
    · simp [ahead]
    · simp [leaf, bump, note]
  | @constant t kind =>
    have within : ¬(maxDepth : Int) < r.depth := by exact_mod_cast Nat.not_lt.mpr bound
    rw [Driven]
    simp only [tooDeep?, Token.rise, kind, Int.add_zero, if_neg within]
    refine ⟨fun _ => ⟨_, _, rfl, ?_, ?_, read_constant ahead kind⟩, fun u found => by cases found⟩
    · simp [ahead]
    · simp [leaf, bump]
  | @enclosed l c ts f opening inner closing ih =>
    refine driven_enclosed (by simpa using ahead) opening closing inner.nesting_eq_zero ?_
    intro s behind _ bound
    refine ih s _ behind bound fun u hu => ?_
    cases hu
    exact ⟨by simp [Token.isPrime, closing], fun l _ => joint?_closing closing l⟩

end Reader

namespace Formula

/-- An expression is read as its derivation prescribes, or its first parenthesis that opens one
level too many is refused. -/
theorem ofTokens_of_derives {ts : List Token} {f : Formula} {last : Token}
    (derived : Expression ts f) (finish : last.kind = .finish) :
    (tooDeep? 0 ts = none → ∃ p, ofTokens (ts ++ [last]) = .ok p ∧ p.formula.shape = f ∧
      p.names.Pairwise (· < ·) ∧ ∀ x, x ∈ p.names ↔ ∃ t ∈ ts, t.kind = .name ∧ t.text = x) ∧
    ∀ t, tooDeep? 0 ts = some t → ofTokens (ts ++ [last]) = .error (.nestedTooDeeply t) := by
  have marker : last.isFinish = true := by simp [Token.isFinish, finish]
  have ahead : (Reader.ofTokens (ts ++ [last])).ahead = ts := by
    have inside : ∀ t ∈ ts, (!t.isFinish) = true := by simpa using derived.not_isFinish
    simp [Reader.ofTokens, List.takeWhile_append_of_pos inside, marker]
  have opened : (Reader.ofTokens (ts ++ [last])).ahead ≠ [] := by
    obtain ⟨t, rest, same, _⟩ := derived.exists_head
    rw [ahead, same]
    exact List.cons_ne_nil t rest
  obtain ⟨whole, cut⟩ := Reader.driven derived (Reader.ofTokens (ts ++ [last])) []
    (by simpa using ahead) (Nat.zero_le _) (by intro t ht; cases ht)
  constructor
  · intro shallow
    obtain ⟨g, s, shape, left, _, reached⟩ := whole shallow
    have answer := Eq.trans reached (Reader.read_onward_end (by simp [left]))
    obtain ⟨_, _, _, met⟩ := Reader.read_spells (Reader.isFinish_stop _) answer
    refine ⟨⟨g, s.names⟩, ?_, shape, met.ascending .nil, fun x => ?_⟩
    · rw [ofTokens, Reader.parse_of_read opened answer, if_pos left]
    · rw [met.names x, ← derived.mem_names, ← shape, mem_names_shape]
      simp [Reader.ofTokens]
  · intro t found
    obtain ⟨s, stopped⟩ := cut t found
    rw [ofTokens, Reader.parse_of_read_fault opened stopped]

/-- An expression has one reading, and it is found: the formula that the derivation prescribes, with
the names of the name tokens, unless a parenthesis opens one level too many. Then that parenthesis,
the first one to do so, is reported. -/
theorem ofTokens_expression {ts : List Token} {f : Formula} {last : Token}
    (derived : Expression ts f) (finish : last.kind = .finish) :
    (Shallow ts → ∃ p, ofTokens (ts ++ [last]) = .ok p ∧ p.formula.shape = f ∧
      p.names.Pairwise (· < ·) ∧ ∀ x, x ∈ p.names ↔ ∃ t ∈ ts, t.kind = .name ∧ t.text = x) ∧
    (¬Shallow ts → ∃ t d, FirstTooDeep ts t ∧
      ofTokens (ts ++ [last]) = .error (.nestedTooDeeply t) ∧
      (Fault.nestedTooDeeply t).diagnostic? = some d ∧
      d.message = "Expression is nested too deeply" ∧
      d.position = some (t.position : Int) ∧ d.length = some (t.length : Int)) := by
  obtain ⟨whole, cut⟩ := ofTokens_of_derives derived finish
  refine ⟨fun shallow => whole (shallow_iff.mp shallow), fun deep => ?_⟩
  cases found : tooDeep? 0 ts with
  | none => exact absurd (shallow_iff.mpr found) deep
  | some t => exact ⟨t, _, firstTooDeep_of_tooDeep? found, cut t found, rfl, rfl, rfl, rfl⟩

theorem ofTokens_expression_product :
    let tilde : Token := ⟨.negation, "~", 0, 1⟩
    let prime : Token := ⟨.negation, "'", 4, 1⟩
    let ts : List Token := [tilde, ⟨.name, "A", 1, 1⟩, ⟨.name, "B", 3, 1⟩, prime]
    let f : Formula := .gate .and (.not (.var "A" 0) 0) (.not (.var "B" 0) 0) 0
    Expression ts f ∧ Shallow ts ∧
      ∃ p, ofTokens (ts ++ [.finish 5]) = .ok p ∧ p.formula.shape = f := by
  intro tilde prime ts f
  have sign : ∀ t ∈ [tilde], t.isNegation = true ∧ t.IsPrefix := by decide
  have none : ∀ t ∈ ([] : List Token), t.isNegation = true ∧ t.IsPrefix := by simp
  have behind : ∀ t ∈ [prime], t.isPrime = true := by decide
  have derived : Expression ts f := .first (.first (.juxtapose
    (.first (.signed sign (.name rfl) (List.forall_mem_nil _))) (.signed none (.name rfl) behind)))
  have shallow : Shallow ts := shallow_iff.mpr (by decide)
  have marker : (Token.finish 5).kind = .finish := rfl
  obtain ⟨p, answer, shape, _⟩ := (ofTokens_expression derived marker).1 shallow
  exact ⟨derived, shallow, p, answer, shape⟩

end Formula

end Switching
