import Switching.Grammar.Parse
import Switching.Proofs.Names

/-! The grammar of expressions as derivations, without a reader: which token lists a phrase derives,
and the formula that a derivation prescribes. Its nodes all have the number zero. -/
namespace Switching

/-- The phrases of the grammar: the chains of the three tiers, the operands of a product, and what
stands between their negations. -/
inductive Phrase
  | chain (level : Tier)
  | operand
  | primary
  deriving DecidableEq, Repr

namespace Tier

def part : Tier → Phrase
  | sum => .chain .exclusive
  | exclusive => .chain .product
  | product => .operand

end Tier

namespace Formula

def negated : Nat → Formula → Formula
  | 0, f => f
  | n + 1, f => .not (negated n f) 0

theorem negated_add (m n : Nat) (f : Formula) : negated (m + n) f = negated m (negated n f) := by
  induction m with
  | zero => rw [Nat.zero_add, negated]
  | succ m ih => rw [Nat.succ_add, negated, ih, negated]

theorem mem_names_negated {x : String} (n : Nat) (f : Formula) :
    x ∈ (negated n f).names ↔ x ∈ f.names := by
  induction n with
  | zero => exact Iff.rfl
  | succ n ih => rw [negated, mem_names_not, ih]

end Formula

/-- The derivations of a phrase. What may stand in front of an operand is a parameter: a sign is one
of the negations that it admits. -/
inductive Derives (sign : Token → Prop) : Phrase → List Token → Formula → Prop
  | first {level : Tier} {ts : List Token} {f : Formula} (one : Derives sign level.part ts f) :
      Derives sign (.chain level) ts f
  | join {front back : List Token} {t : Token} {f g : Formula} {k : Gate}
      (left : Derives sign (.chain k.tier) front f) (kind : t.kind = .gate k)
      (right : Derives sign k.tier.part back g) :
      Derives sign (.chain k.tier) (front ++ t :: back) (.gate k f g 0)
  | juxtapose {front back : List Token} {f g : Formula}
      (left : Derives sign (.chain .product) front f) (right : Derives sign .operand back g) :
      Derives sign (.chain .product) (front ++ back) (.gate .and f g 0)
  | signed {signs ts primes : List Token} {f : Formula}
      (before : ∀ t ∈ signs, t.isNegation = true ∧ sign t) (one : Derives sign .primary ts f)
      (behind : ∀ t ∈ primes, t.isPrime = true) :
      Derives sign .operand (signs ++ ts ++ primes)
        (.negated signs.length (.negated primes.length f))
  | name {t : Token} (kind : t.kind = .name) : Derives sign .primary [t] (.var t.text 0)
  | constant {t : Token} (kind : t.kind = .constant) :
      Derives sign .primary [t] (.const (t.text == "1") 0)
  | enclosed {l r : Token} {ts : List Token} {f : Formula} (opening : l.kind = .opening)
      (inner : Derives sign (.chain .sum) ts f) (closing : r.kind = .closing) :
      Derives sign .primary (l :: ts ++ [r]) f

def Token.IsPrefix (t : Token) : Prop := t.isPrime = false

instance : DecidablePred Token.IsPrefix := fun t => inferInstanceAs (Decidable (t.isPrime = false))

abbrev Expression (ts : List Token) (f : Formula) : Prop :=
  Derives Token.IsPrefix (.chain .sum) ts f

namespace Derives

variable {sign : Token → Prop} {phrase : Phrase} {ts : List Token} {f : Formula}

theorem exists_primary_head (h : Derives sign .primary ts f) :
    ∃ t rest, ts = t :: rest ∧ t.kind.startsOperand = true ∧ t.isNegation = false := by
  cases h with
  | @name t kind =>
    exact ⟨t, [], rfl, by simp [kind, TokenKind.startsOperand], by simp [kind, Token.isNegation]⟩
  | @constant t kind =>
    exact ⟨t, [], rfl, by simp [kind, TokenKind.startsOperand], by simp [kind, Token.isNegation]⟩
  | @enclosed l r ts f opening _ _ =>
    exact ⟨l, ts ++ [r], rfl, by simp [opening, TokenKind.startsOperand],
      by simp [opening, Token.isNegation]⟩

theorem exists_head (h : Derives sign phrase ts f) :
    ∃ t rest, ts = t :: rest ∧ t.kind.startsOperand = true ∧ (t.isNegation = true → sign t) := by
  induction h with
  | first _ ih => exact ih
  | join _ _ _ ih _ =>
    obtain ⟨t, rest, rfl, starts, signs⟩ := ih
    exact ⟨t, _, rfl, starts, signs⟩
  | juxtapose _ _ ih _ =>
    obtain ⟨t, rest, rfl, starts, signs⟩ := ih
    exact ⟨t, _, rfl, starts, signs⟩
  | @signed signs ts primes f before one _ _ =>
    obtain ⟨t, rest, rfl, starts, plain⟩ := one.exists_primary_head
    cases signs with
    | nil => exact ⟨t, _, rfl, starts, by simp [plain]⟩
    | cons s ss =>
      obtain ⟨negation, allowed⟩ := before s (List.mem_cons_self ..)
      have kind : s.kind = .negation := by simpa [Token.isNegation] using negation
      exact ⟨s, _, rfl, by simp [kind, TokenKind.startsOperand], fun _ => allowed⟩
  | name kind =>
    have leaf : Derives sign .primary _ _ := .name kind
    obtain ⟨t, rest, same, starts, plain⟩ := leaf.exists_primary_head
    exact ⟨t, rest, same, starts, by simp [plain]⟩
  | constant kind =>
    have leaf : Derives sign .primary _ _ := .constant kind
    obtain ⟨t, rest, same, starts, plain⟩ := leaf.exists_primary_head
    exact ⟨t, rest, same, starts, by simp [plain]⟩
  | enclosed opening inner closing _ =>
    obtain ⟨t, rest, same, starts, plain⟩ := exists_primary_head (.enclosed opening inner closing)
    exact ⟨t, rest, same, starts, by simp [plain]⟩

theorem not_isFinish (h : Derives sign phrase ts f) : ∀ t ∈ ts, t.isFinish = false := by
  induction h with
  | first _ ih => exact ih
  | join _ kind _ left right =>
    intro t ht
    rcases List.mem_append.mp ht with ht | ht
    · exact left t ht
    · rcases List.mem_cons.mp ht with rfl | ht
      · simp [Token.isFinish, kind]
      · exact right t ht
  | juxtapose _ _ left right =>
    intro t ht
    rcases List.mem_append.mp ht with ht | ht
    · exact left t ht
    · exact right t ht
  | signed before _ behind ih =>
    intro t ht
    rcases List.mem_append.mp ht with ht | ht
    · rcases List.mem_append.mp ht with ht | ht
      · have negation := (before t ht).1
        simp_all [Token.isNegation, Token.isFinish]
      · exact ih t ht
    · have prime := behind t ht
      simp_all [Token.isPrime, Token.isFinish]
  | name kind => simp [Token.isFinish, kind]
  | constant kind => simp [Token.isFinish, kind]
  | enclosed opening _ closing ih =>
    intro t ht
    rcases List.mem_append.mp ht with ht | ht
    · rcases List.mem_cons.mp ht with rfl | ht
      · simp [Token.isFinish, opening]
      · exact ih t ht
    · rw [List.mem_singleton.mp ht]
      simp [Token.isFinish, closing]

theorem mem_names (h : Derives sign phrase ts f) (x : String) :
    x ∈ f.names ↔ ∃ t ∈ ts, t.kind = .name ∧ t.text = x := by
  induction h with
  | first _ ih => exact ih
  | join _ kind _ left right =>
    rw [Formula.mem_names_gate, left, right]
    simp [or_and_right, exists_or, kind]
  | juxtapose _ _ left right =>
    rw [Formula.mem_names_gate, left, right]
    simp [or_and_right, exists_or]
  | @signed signs ts primes f before _ behind ih =>
    rw [Formula.mem_names_negated, Formula.mem_names_negated, ih]
    constructor
    · rintro ⟨t, ht, name⟩
      exact ⟨t, by simp [ht], name⟩
    · rintro ⟨t, ht, kind, text⟩
      rw [List.mem_append, List.mem_append] at ht
      rcases ht with (ht | ht) | ht
      · simpa [Token.isNegation, kind] using (before t ht).1
      · exact ⟨t, ht, kind, text⟩
      · simpa [Token.isPrime, kind] using behind t ht
  | name kind => simp [kind, eq_comm]
  | constant kind => simp [kind]
  | enclosed opening _ closing ih =>
    rw [ih]
    simp [or_and_right, exists_or, opening, closing]

end Derives

end Switching
