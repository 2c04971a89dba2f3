import Switching.Proofs.Grammar.Nesting
import Switching.Proofs.Grammar.Soundness

/-! How tightly gates bind. In a formula that is read without parentheses a gate has looser gates
nowhere below it and gates of its own strength at its left only, and read from left to right its
operands and gates are those of the tokens. The table of binding strengths is not consulted by the
reader, which knows tiers only. -/
namespace Switching

inductive Symbol
  | name (text : String)
  | constant (value : Bool)
  | gate (kind : Gate)
  deriving DecidableEq, Repr

namespace Symbol

def isOperand : Symbol → Bool
  | gate _ => false
  | _ => true

def withProducts : List Symbol → List Symbol
  | a :: b :: rest =>
    if a.isOperand && b.isOperand then a :: gate .and :: withProducts (b :: rest)
    else a :: withProducts (b :: rest)
  | few => few

variable {a b : Symbol} {k : Gate} {front back : List Symbol}

theorem withProducts_gate (k : Gate) (back : List Symbol) :
    withProducts (gate k :: back) = gate k :: withProducts back := by
  cases back with
  | nil => rfl
  | cons b back => simp [withProducts, isOperand]

theorem withProducts_append_gate (front : List Symbol) (k : Gate) (back : List Symbol) :
    withProducts (front ++ gate k :: back) = withProducts front ++ gate k :: withProducts back := by
  induction front with
  | nil => exact withProducts_gate k back
  | cons a front ih =>
    cases front with
    | nil => simp [withProducts, isOperand, withProducts_gate]
    | cons b front =>
      simp only [List.cons_append, withProducts] at ih ⊢
      split <;> simp only [ih, List.cons_append]

/-- The symbols begin with an operand and end with one. -/
structure Framed (symbols : List Symbol) : Prop where
  first : ∃ a rest, symbols = a :: rest ∧ a.isOperand = true
  last : ∃ front b, symbols = front ++ [b] ∧ b.isOperand = true

theorem Framed.single (ha : a.isOperand = true) : Framed [a] where
  first := ⟨a, [], rfl, ha⟩
  last := ⟨[], a, rfl, ha⟩

theorem Framed.append (before : Framed front) (behind : Framed back) (middle : List Symbol) :
    Framed (front ++ (middle ++ back)) where
  first := by
    obtain ⟨a, rest, rfl, ha⟩ := before.first
    exact ⟨a, _, List.cons_append, ha⟩
  last := by
    obtain ⟨rest, b, rfl, hb⟩ := behind.last
    exact ⟨front ++ (middle ++ rest), b, by simp only [List.append_assoc], hb⟩

theorem withProducts_append_operands (front : List Symbol) (ha : a.isOperand = true)
    (hb : b.isOperand = true) (back : List Symbol) :
    withProducts (front ++ [a] ++ b :: back) =
      withProducts (front ++ [a]) ++ gate .and :: withProducts (b :: back) := by
  induction front with
  | nil => simp [withProducts, ha, hb]
  | cons c front ih =>
    cases front with
    | nil =>
      simp only [List.cons_append, List.nil_append, withProducts] at ih ⊢
      split <;> simp [ha, hb]
    | cons d front =>
      simp only [List.cons_append, withProducts] at ih ⊢
      split <;> simp only [ih, List.cons_append]

theorem withProducts_append (before : Framed front) (behind : Framed back) :
    withProducts (front ++ back) = withProducts front ++ gate .and :: withProducts back := by
  obtain ⟨front, a, rfl, ha⟩ := before.last
  obtain ⟨b, back, rfl, hb⟩ := behind.first
  exact withProducts_append_operands front ha hb back

end Symbol

def Token.symbol? (t : Token) : Option Symbol :=
  match t.kind with
  | .name => some (.name t.text)
  | .constant => some (.constant (t.text == "1"))
  | .gate k => some (.gate k)
  | _ => none

theorem Token.filterMap_symbol?_negations {ts : List Token} (h : ∀ t ∈ ts, t.isNegation = true) :
    ts.filterMap symbol? = [] := by
  refine List.filterMap_eq_nil_iff.mpr fun t ht => ?_
  have kind : t.kind = .negation := by simpa [isNegation] using h t ht
  simp [symbol?, kind]

theorem TokenKind.precedence_gate (k : Gate) : (gate k).precedence = k.tier.rank := by
  cases k <;> rfl

namespace Formula

def symbols : Formula → List Symbol
  | var n _ => [.name n]
  | const b _ => [.constant b]
  | not f _ => f.symbols
  | gate k l r _ => l.symbols ++ .gate k :: r.symbols

def rootGate? : Formula → Option Gate
  | gate k .. => some k
  | _ => none

/-- What the table of binding strengths asks of a node: its left operand binds no looser than the
node and its right operand tighter, and a negation has no gate as its operand. -/
def Binds : Formula → Prop
  | gate k l r _ =>
    (∀ j ∈ l.rootGate?, (TokenKind.gate k).precedence ≤ (TokenKind.gate j).precedence) ∧
      ∀ j ∈ r.rootGate?, (TokenKind.gate k).precedence < (TokenKind.gate j).precedence
  | not f _ => f.rootGate? = none
  | _ => True

variable {f g : Formula}

theorem rootGate?_shape (f : Formula) : f.shape.rootGate? = f.rootGate? := by cases f <;> rfl

theorem symbols_shape (f : Formula) : f.shape.symbols = f.symbols := by
  induction f with
  | var n i => rfl
  | const b i => rfl
  | not f i ih => exact ih
  | gate k l r i left right => simp only [shape, symbols, left, right]

theorem nodes_shape (f : Formula) : f.shape.nodes = f.nodes.map shape := by
  induction f with
  | var n i => rfl
  | const b i => rfl
  | not f i ih => simp [shape, ih]
  | gate k l r i left right => simp [shape, left, right]

theorem binds_shape (f : Formula) : f.shape.Binds ↔ f.Binds := by
  cases f with
  | var n i => exact Iff.rfl
  | const b i => exact Iff.rfl
  | not f i => simp only [shape, Binds, rootGate?_shape]
  | gate k l r i => simp only [shape, Binds, rootGate?_shape]

theorem rootGate?_negated (n : Nat) (leaf : f.rootGate? = none) :
    (negated n f).rootGate? = none := by
  cases n with
  | zero => exact leaf
  | succ n => rfl

theorem binds_negated (n : Nat) (leaf : f.rootGate? = none) (below : ∀ g ∈ f.nodes, g.Binds) :
    ∀ g ∈ (negated n f).nodes, g.Binds := by
  induction n with
  | zero => exact below
  | succ n ih =>
    intro g hg
    simp only [negated, nodes_not, List.mem_cons] at hg
    rcases hg with rfl | hg
    · exact rootGate?_negated n leaf
    · exact ih g hg

theorem binds_gate {k : Gate} {i : Int} (belowLeft : ∀ node ∈ f.nodes, node.Binds)
    (belowRight : ∀ node ∈ g.nodes, node.Binds)
    (left : ∀ j ∈ f.rootGate?, k.tier.rank ≤ j.tier.rank)
    (right : ∀ j ∈ g.rootGate?, k.tier.rank < j.tier.rank) :
    ∀ node ∈ (gate k f g i).nodes, node.Binds := by
  intro node hnode
  simp only [nodes_gate, List.mem_cons, List.mem_append] at hnode
  rcases hnode with rfl | hnode | hnode
  · simp only [Binds, TokenKind.precedence_gate]
    exact ⟨left, right⟩
  · exact belowLeft node hnode
  · exact belowRight node hnode

theorem symbols_negated (n : Nat) (f : Formula) : (negated n f).symbols = f.symbols := by
  induction n with
  | zero => rfl
  | succ n ih => exact ih

end Formula

/-- A gate that may be the root of what a phrase derives without parentheses. -/
def Phrase.Roots : Phrase → Gate → Prop
  | chain level, k => level.rank ≤ k.tier.rank
  | _, _ => False

theorem Tier.lt_of_roots {level : Tier} {k : Gate} (h : level.part.Roots k) :
    level.rank < k.tier.rank := by
  cases level with
  | sum => exact h
  | exclusive => exact h
  | product => exact h.elim

namespace Derives

variable {sign : Token → Prop} {phrase : Phrase} {ts : List Token} {f : Formula}

theorem binds (h : Derives sign phrase ts f) (flat : ∀ t ∈ ts, t.kind ≠ .opening) :
    (∀ g ∈ f.nodes, g.Binds) ∧ ∀ k ∈ f.rootGate?, phrase.Roots k := by
  induction h with
  | @first level ts f one ih =>
    obtain ⟨below, root⟩ := ih flat
    exact ⟨below, fun k hk => Nat.le_of_lt (Tier.lt_of_roots (root k hk))⟩
  | @join front back t f g k _ _ _ left right =>
    obtain ⟨flatLeft, flatRight⟩ := List.forall_mem_append.mp flat
    obtain ⟨belowLeft, rootLeft⟩ := left flatLeft
    obtain ⟨belowRight, rootRight⟩ := right fun t ht => flatRight t (List.mem_cons_of_mem _ ht)
    refine ⟨Formula.binds_gate belowLeft belowRight rootLeft ?_, ?_⟩
    · exact fun j hj => Tier.lt_of_roots (rootRight j hj)
    · rintro j ⟨⟩
      exact Nat.le_refl _
  | @juxtapose front back f g _ _ left right =>
    obtain ⟨flatLeft, flatRight⟩ := List.forall_mem_append.mp flat
    obtain ⟨belowLeft, rootLeft⟩ := left flatLeft
    obtain ⟨belowRight, rootRight⟩ := right flatRight
    refine ⟨Formula.binds_gate belowLeft belowRight rootLeft ?_, ?_⟩
    · exact fun j hj => (rootRight j hj).elim
    · rintro j ⟨⟩
      exact Nat.le_refl _
  | @signed signs ts primes f _ _ _ ih =>
    have inner : ∀ t ∈ ts, t.kind ≠ .opening := fun t ht => flat t (by simp [ht])
    obtain ⟨below, root⟩ := ih inner
    have leaf : f.rootGate? = none := Option.eq_none_iff_forall_not_mem.mpr root
    have primed := Formula.binds_negated primes.length leaf below
    have plain := Formula.rootGate?_negated primes.length leaf
    refine ⟨Formula.binds_negated signs.length plain primed, fun k hk => ?_⟩
    simp [Formula.rootGate?_negated signs.length plain] at hk
  | name kind => simp [Formula.nodes, Formula.nodesOnto, Formula.Binds, Formula.rootGate?]
  | constant kind => simp [Formula.nodes, Formula.nodesOnto, Formula.Binds, Formula.rootGate?]
  | @enclosed l r ts f opening _ _ _ => exact absurd opening (flat l (by simp))

theorem symbols (h : Derives sign phrase ts f) (flat : ∀ t ∈ ts, t.kind ≠ .opening) :
    f.symbols = Symbol.withProducts (ts.filterMap Token.symbol?) ∧
      Symbol.Framed (ts.filterMap Token.symbol?) := by
  induction h with
  | first _ ih => exact ih flat
  | @join front back t f g k _ kind _ left right =>
    obtain ⟨flatLeft, flatRight⟩ := List.forall_mem_append.mp flat
    obtain ⟨symbolsLeft, framedLeft⟩ := left flatLeft
    obtain ⟨symbolsRight, framedRight⟩ :=
      right fun t ht => flatRight t (List.mem_cons_of_mem _ ht)
    have gate : t.symbol? = some (.gate k) := by simp [Token.symbol?, kind]
    simp only [List.filterMap_append, List.filterMap_cons_some gate]
    refine ⟨?_, framedLeft.append framedRight [.gate k]⟩
    simp only [Formula.symbols, symbolsLeft, symbolsRight, Symbol.withProducts_append_gate]
  | @juxtapose front back f g _ _ left right =>
    obtain ⟨flatLeft, flatRight⟩ := List.forall_mem_append.mp flat
    obtain ⟨symbolsLeft, framedLeft⟩ := left flatLeft
    obtain ⟨symbolsRight, framedRight⟩ := right flatRight
    simp only [List.filterMap_append]
    refine ⟨?_, framedLeft.append framedRight []⟩
    simp only [Formula.symbols, symbolsLeft, symbolsRight,
      Symbol.withProducts_append framedLeft framedRight]
  | @signed signs ts primes f before _ behind ih =>
    have inner : ∀ t ∈ ts, t.kind ≠ .opening := fun t ht => flat t (by simp [ht])
    have noSigns := Token.filterMap_symbol?_negations fun t ht => (before t ht).1
    have noPrimes := Token.filterMap_symbol?_negations fun t ht =>
      isNegation_of_isPrime (behind t ht)
    simp only [List.filterMap_append, noSigns, noPrimes, List.nil_append, List.append_nil,
      Formula.symbols_negated]
    exact ih inner
  | @name t kind =>
    have symbol : t.symbol? = some (.name t.text) := by simp [Token.symbol?, kind]
    simp only [List.filterMap_cons_some symbol, List.filterMap_nil]
    exact ⟨rfl, .single rfl⟩
  | @constant t kind =>
    have symbol : t.symbol? = some (.constant (t.text == "1")) := by simp [Token.symbol?, kind]
    simp only [List.filterMap_cons_some symbol, List.filterMap_nil]
    exact ⟨rfl, .single rfl⟩
  | @enclosed l r ts f opening _ _ _ => exact absurd opening (flat l (by simp))

end Derives

namespace Formula

/-- An accepted list of tokens without parentheses is read as the table of binding strengths asks,
and the leaves and gates of the formula are, from left to right, what the tokens in front of the end
marker stand for, with an AND where a gate is left out. -/
theorem ofTokens_binds {tokens : List Token} {p : Parsed} (accepted : ofTokens tokens = .ok p)
    (flat : ∀ t ∈ Token.body tokens, t.kind ≠ .opening) :
    (∀ g ∈ p.formula.nodes, g.Binds) ∧
      p.formula.symbols = Symbol.withProducts ((Token.body tokens).filterMap Token.symbol?) := by
  obtain ⟨derived, _⟩ := derives_of_ofTokens accepted
  obtain ⟨below, _⟩ := derived.binds flat
  obtain ⟨symbols, _⟩ := derived.symbols flat
  refine ⟨fun g hg => ?_, (symbols_shape p.formula).symm.trans symbols⟩
  have shaped : g.shape ∈ p.formula.shape.nodes := nodes_shape p.formula ▸ List.mem_map_of_mem hg
  exact (binds_shape g).mp (below g.shape shaped)

/-- The tokens of `A NOR B C' XOR ~1 NAND D` without their negations, and an AND for the missing
gate: NAND binds tighter than XOR, and XOR tighter than NOR. -/
theorem ofTokens_binds_tiers :
    ∃ tokens p, Token.scan "A NOR B C' XOR ~1 NAND D" = .ok tokens ∧ ofTokens tokens = .ok p ∧
      (∀ t ∈ Token.body tokens, t.kind ≠ .opening) ∧ (∀ g ∈ p.formula.nodes, g.Binds) ∧
      p.formula.symbols = [.name "A", .gate .nor, .name "B", .gate .and, .name "C", .gate .xor,
        .constant true, .gate .nand, .name "D"] := by
  let tokens : List Token := [⟨.name, "A", 0, 1⟩, ⟨.gate .nor, "NOR", 2, 3⟩, ⟨.name, "B", 6, 1⟩,
    ⟨.name, "C", 8, 1⟩, ⟨.negation, "'", 9, 1⟩, ⟨.gate .xor, "XOR", 11, 3⟩,
    ⟨.negation, "~", 15, 1⟩, ⟨.constant, "1", 16, 1⟩, ⟨.gate .nand, "NAND", 18, 4⟩,
    ⟨.name, "D", 23, 1⟩, .finish 24]
  let p : Parsed := ⟨.gate .nor (.var "A" 1)
    (.gate .xor (.gate .and (.var "B" 2) (.not (.var "C" 3) 4) 5)
      (.gate .nand (.not (.const true 6) 7) (.var "D" 8) 9) 10) 11, ["A", "B", "C", "D"]⟩
  have scanned : Token.scan "A NOR B C' XOR ~1 NAND D" = .ok tokens := by decide +kernel
  have accepted : ofTokens tokens = .ok p := by decide +kernel
  have flat : ∀ t ∈ Token.body tokens, t.kind ≠ .opening := by decide
  obtain ⟨below, symbols⟩ := ofTokens_binds accepted flat
  exact ⟨tokens, p, scanned, accepted, flat, below, symbols.trans (by decide)⟩

end Formula

end Switching
