import Switching.Proofs.Grammar.Nesting

/-! Which tokens may follow which, token by token and without a reader: an expression stands behind
some of its tokens with an operand due or not, and with some parentheses open. An expression that
stands anywhere can be completed, and the tokens that lead from its front to its end are those of a
derivation in which any negation may be a sign. -/
namespace Switching

/-- How an expression stands behind some of its tokens: whether an operand is due next, and how many
parentheses are open. -/
structure Standing where
  due : Bool
  depth : Nat
  deriving DecidableEq, Repr

namespace Standing

def start : Standing := ⟨true, 0⟩

def done : Standing := ⟨false, 0⟩

/-- The standing behind one more token, unless the token cannot stand here. An operand may follow an
operand, as a product may leave its gate out; a prime there still belongs to the operand before. -/
def step (s : Standing) (t : Token) : Option Standing :=
  match t.kind with
  | .name | .constant => some ⟨false, s.depth⟩
  | .negation => some ⟨s.due || !t.isPrime, s.depth⟩
  | .gate _ => if s.due then none else some ⟨true, s.depth⟩
  | .opening => if s.depth < maxDepth then some ⟨true, s.depth + 1⟩ else none
  | .closing => if s.due || s.depth == 0 then none else some ⟨false, s.depth - 1⟩
  | .finish => none

def after (s : Standing) (ts : List Token) : Option Standing := ts.foldlM step s

/-- No expression that stands here goes on with these tokens: the first of them cannot stand here,
or there is none left and the expression is not at its end. -/
def Refuses (s : Standing) : List Token → Prop
  | [] => s ≠ done
  | t :: _ => s.step t = none

variable {s s' : Standing} {t : Token} {ts front back : List Token} {d : Nat} {b : Bool} {k : Gate}

@[simp]
theorem after_nil (s : Standing) : s.after [] = some s := rfl

@[simp]
theorem after_cons (s : Standing) (t : Token) (ts : List Token) :
    s.after (t :: ts) = (s.step t).bind fun s' => s'.after ts := rfl

theorem after_append (s : Standing) (front back : List Token) :
    s.after (front ++ back) = (s.after front).bind fun s' => s'.after back := by
  rw [after, List.foldlM_append]
  rfl

theorem after_of_append (first : s.after front = some s') :
    s.after (front ++ back) = s'.after back := by
  rw [after_append, first, Option.bind_some]

theorem not_done_of_refuses (h : s.Refuses ts) : s.after ts ≠ some done := by
  cases ts with
  | nil => exact fun same => h (Option.some.inj same)
  | cons t ts =>
    have none : s.step t = none := h
    simp [none]

section Step

theorem step_name (kind : t.kind = .name) : s.step t = some ⟨false, s.depth⟩ := by
  simp [step, kind]

theorem step_constant (kind : t.kind = .constant) : s.step t = some ⟨false, s.depth⟩ := by
  simp [step, kind]

theorem step_gate (kind : t.kind = .gate k) : step ⟨false, d⟩ t = some ⟨true, d⟩ := by
  simp [step, kind]

theorem step_opening (kind : t.kind = .opening) (room : s.depth < maxDepth) :
    s.step t = some ⟨true, s.depth + 1⟩ := by
  simp [step, kind, room]

theorem step_closing (kind : t.kind = .closing) : step ⟨false, d + 1⟩ t = some ⟨false, d⟩ := by
  simp [step, kind]

theorem step_sign (negation : t.isNegation = true) : step ⟨true, d⟩ t = some ⟨true, d⟩ := by
  have kind : t.kind = .negation := by simpa [Token.isNegation] using negation
  simp [step, kind]

theorem step_prime (prime : t.isPrime = true) : s.step t = some s := by
  have kind : t.kind = .negation := by
    simpa [Token.isNegation] using isNegation_of_isPrime prime
  simp [step, kind, prime]

theorem step_of_starts (starts : t.kind.startsOperand = true) (prime : t.isPrime = false) :
    step ⟨b, d⟩ t = step ⟨true, d⟩ t := by
  cases kind : t.kind <;> simp_all [step, TokenKind.startsOperand]

theorem opening_of_starts (starts : t.kind.startsOperand = true) (refused : s.step t = none) :
    t.kind = .opening := by
  cases kind : t.kind <;> simp_all [step, TokenKind.startsOperand]

theorem depth_of_step (h : s.step t = some s') (bound : s.depth ≤ maxDepth) :
    (s'.depth : Int) = s.depth + t.rise ∧ s'.depth ≤ maxDepth := by
  cases kind : t.kind with
  | name | constant | negation =>
    simp only [step, kind, Option.some.injEq] at h
    subst h
    exact ⟨by simp [Token.rise, kind], bound⟩
  | gate k =>
    simp only [step, kind] at h
    split at h
    · cases h
    · cases h
      exact ⟨by simp [Token.rise, kind], bound⟩
  | opening =>
    simp only [step, kind] at h
    split at h
    · rename_i room
      cases h
      exact ⟨by simp [Token.rise, kind], room⟩
    · cases h
  | closing =>
    simp only [step, kind, Bool.or_eq_true, beq_iff_eq] at h
    split at h
    · cases h
    · rename_i opened
      cases h
      rw [not_or] at opened
      exact ⟨by simp [Token.rise, kind]; omega, Nat.le_trans (Nat.sub_le _ _) bound⟩
  | finish => simp [step, kind] at h

end Step

theorem after_signs (signs : ∀ t ∈ ts, t.isNegation = true) :
    after ⟨true, d⟩ ts = some ⟨true, d⟩ := by
  induction ts with
  | nil => rfl
  | cons t ts ih =>
    rw [after_cons, step_sign (signs t (List.mem_cons_self ..)), Option.bind_some,
      ih fun u hu => signs u (List.mem_cons_of_mem _ hu)]

theorem exists_after_signs (b : Bool) (signs : ∀ t ∈ ts, t.isNegation = true) :
    ∃ b', after ⟨b, d⟩ ts = some ⟨b', d⟩ := by
  -- primes leave the standing behind an operand until a sign asks for another
  induction ts generalizing b with
  | nil => exact ⟨b, rfl⟩
  | cons t ts ih =>
    have kind : t.kind = .negation := by
      simpa [Token.isNegation] using signs t (List.mem_cons_self ..)
    obtain ⟨b', rest⟩ := ih (b || !t.isPrime) fun u hu => signs u (List.mem_cons_of_mem _ hu)
    exact ⟨b', by simpa [step, kind] using rest⟩

theorem after_primes (primes : ∀ t ∈ ts, t.isPrime = true) : s.after ts = some s := by
  induction ts with
  | nil => rfl
  | cons t ts ih =>
    rw [after_cons, step_prime (primes t (List.mem_cons_self ..)), Option.bind_some,
      ih fun u hu => primes u (List.mem_cons_of_mem _ hu)]

theorem tooDeep?_of_after (h : s.after ts = some s') (bound : s.depth ≤ maxDepth) :
    tooDeep? s.depth ts = none := by
  induction ts generalizing s with
  | nil => rfl
  | cons t ts ih =>
    obtain ⟨s₁, first, rest⟩ := Option.bind_eq_some_iff.mp h
    obtain ⟨depth, within⟩ := depth_of_step first bound
    have low : ¬(maxDepth : Int) < s₁.depth := by exact_mod_cast Nat.not_lt.mpr within
    rw [tooDeep?, ← depth, if_neg low]
    exact ih rest within

def closers (d : Nat) : List Token := List.replicate d ⟨.closing, ")", 0, 1⟩

theorem after_closers (d : Nat) : after ⟨false, d⟩ (closers d) = some done := by
  induction d with
  | zero => rfl
  | succ d ih =>
    rw [closers, List.replicate_succ, after_cons, step_closing rfl, Option.bind_some]
    exact ih

/-- An expression that stands anywhere can be brought to its end. -/
theorem exists_completion (s : Standing) :
    ∃ more, (∀ t ∈ more, t.isFinish = false) ∧ s.after more = some done := by
  have closing : ∀ t ∈ closers s.depth, t.isFinish = false := by
    intro t ht
    rw [List.eq_of_mem_replicate ht]
    rfl
  refine ⟨⟨.name, "A", 0, 1⟩ :: closers s.depth, ?_, ?_⟩
  · exact List.forall_mem_cons.mpr ⟨rfl, closing⟩
  · rw [after_cons, step_name rfl, Option.bind_some, after_closers]

end Standing

theorem tooDeep?_split {depth : Int} {front back : List Token} (flat : nesting front = 0)
    (shallow : tooDeep? depth (front ++ back) = none) :
    tooDeep? depth front = none ∧ tooDeep? depth back = none := by
  rw [tooDeep?_append, flat, Int.add_zero] at shallow
  exact Option.or_eq_none_iff.mp shallow

theorem tooDeep?_tail {depth : Int} {t : Token} {ts : List Token}
    (shallow : tooDeep? depth (t :: ts) = none) :
    depth + t.rise ≤ maxDepth ∧ tooDeep? (depth + t.rise) ts = none := by
  rw [tooDeep?] at shallow
  split at shallow
  · cases shallow
  · rename_i low
    exact ⟨Int.not_lt.mp low, shallow⟩

open Standing in
theorem Derives.after_eq {sign : Token → Prop} {p : Phrase} {ts : List Token} {f : Formula}
    (h : Derives sign p ts f) (b : Bool) {d : Nat} (shallow : tooDeep? d ts = none) :
    Standing.after ⟨b, d⟩ ts = some ⟨false, d⟩ := by
  -- for both `b`, as the operand behind a gate left out is entered with none due
  induction h generalizing b d with
  | first _ ih => exact ih b shallow
  | @join front back t f g k left kind right ihLeft ihRight =>
    have rise : t.rise = 0 := by simp [Token.rise, kind]
    obtain ⟨within, behind⟩ := tooDeep?_split left.nesting_eq_zero shallow
    have rest := (tooDeep?_tail behind).2
    rw [rise, Int.add_zero] at rest
    rw [after_of_append (ihLeft b within), after_cons, step_gate kind, Option.bind_some]
    exact ihRight true rest
  | @juxtapose front back f g left right ihLeft ihRight =>
    obtain ⟨within, behind⟩ := tooDeep?_split left.nesting_eq_zero shallow
    rw [after_of_append (ihLeft b within)]
    exact ihRight false behind
  | @signed signs ts primes f before one behind ih =>
    have flat := nesting_of_flat fun t ht => rise_of_negation (before t ht).1
    rw [List.append_assoc] at shallow ⊢
    have rest := (tooDeep?_split flat shallow).2
    obtain ⟨b', signed⟩ := exists_after_signs (d := d) b fun t ht => (before t ht).1
    rw [after_of_append signed, after_of_append (ih b' (tooDeep?_split one.nesting_eq_zero rest).1)]
    exact after_primes behind
  | name kind => simp [step_name kind]
  | constant kind => simp [step_constant kind]
  | @enclosed l r ts f opening inner closing ih =>
    obtain ⟨room, rest⟩ := tooDeep?_tail shallow
    rw [rise_of_opening opening] at room rest
    have within : tooDeep? (d + 1 : Nat) ts = none :=
      (tooDeep?_split inner.nesting_eq_zero rest).1
    rw [List.cons_append, after_cons, step_opening opening (by exact_mod_cast room),
      Option.bind_some, after_of_append (ih true within), after_cons, step_closing closing]
    rfl

theorem Derives.after_start {sign : Token → Prop} {p : Phrase} {ts : List Token} {f : Formula}
    (h : Derives sign p ts f) (shallow : Shallow ts) : Standing.start.after ts = some .done :=
  h.after_eq true (shallow_iff.mp shallow)

end Switching
