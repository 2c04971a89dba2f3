import Switching.Proofs.Grammar.Derivation

/-! The nesting of parentheses in a token list, counted without a reader, and the first parenthesis
that opens one level too many. -/
namespace Switching

def Token.rise (t : Token) : Int :=
  match t.kind with
  | .opening => 1
  | .closing => -1
  | _ => 0

def nesting : List Token → Int
  | [] => 0
  | t :: ts => t.rise + nesting ts

def Shallow (ts : List Token) : Prop := ∀ front, front <+: ts → nesting front ≤ maxDepth

/-- The token opens a parenthesis beyond the greatest depth, and none before it does. -/
def FirstTooDeep (ts : List Token) (t : Token) : Prop :=
  ∃ front back, ts = front ++ t :: back ∧ t.kind = .opening ∧ nesting front = maxDepth ∧
    Shallow front

/-- The first token that opens a parenthesis beyond the greatest depth, with some of them open in
front of the tokens. -/
def tooDeep? (depth : Int) : List Token → Option Token
  | [] => none
  | t :: ts => if maxDepth < depth + t.rise then some t else tooDeep? (depth + t.rise) ts

variable {depth : Int} {t : Token} {ts front back : List Token}

@[simp]
theorem nesting_nil : nesting [] = 0 := rfl

@[simp]
theorem nesting_cons (t : Token) (ts : List Token) : nesting (t :: ts) = t.rise + nesting ts := rfl

@[simp]
theorem nesting_append (front back : List Token) :
    nesting (front ++ back) = nesting front + nesting back := by
  induction front with
  | nil => rw [List.nil_append, nesting_nil, Int.zero_add]
  | cons t ts ih => rw [List.cons_append, nesting_cons, nesting_cons, ih, Int.add_assoc]

theorem rise_of_opening (kind : t.kind = .opening) : t.rise = 1 := by simp [Token.rise, kind]

theorem rise_of_closing (kind : t.kind = .closing) : t.rise = -1 := by simp [Token.rise, kind]

theorem rise_of_negation (negation : t.isNegation = true) : t.rise = 0 := by
  have kind : t.kind = .negation := by simpa [Token.isNegation] using negation
  simp [Token.rise, kind]

theorem isNegation_of_isPrime (prime : t.isPrime = true) : t.isNegation = true := by
  rw [Token.isPrime, Bool.and_eq_true] at prime
  exact prime.1

theorem rise_le (t : Token) : t.rise ≤ 1 := by
  unfold Token.rise
  split <;> decide

theorem kind_of_rise (h : t.rise = 1) : t.kind = .opening := by
  unfold Token.rise at h
  split at h
  · assumption
  · contradiction
  · contradiction

theorem nesting_of_flat (flat : ∀ t ∈ ts, t.rise = 0) : nesting ts = 0 := by
  induction ts with
  | nil => rfl
  | cons t ts ih =>
    rw [nesting_cons, flat t (List.mem_cons_self ..),
      ih fun u hu => flat u (List.mem_cons_of_mem _ hu)]
    rfl

theorem tooDeep?_of_flat (bound : depth ≤ maxDepth) (flat : ∀ t ∈ ts, t.rise = 0) :
    tooDeep? depth ts = none := by
  induction ts with
  | nil => rfl
  | cons t ts ih =>
    have level := flat t (List.mem_cons_self ..)
    rw [tooDeep?, level, Int.add_zero, if_neg (Int.not_lt.mpr bound)]
    exact ih fun u hu => flat u (List.mem_cons_of_mem _ hu)

theorem tooDeep?_append (depth : Int) (front back : List Token) :
    tooDeep? depth (front ++ back) =
      (tooDeep? depth front).or (tooDeep? (depth + nesting front) back) := by
  induction front generalizing depth with
  | nil => simp [tooDeep?]
  | cons t ts ih =>
    rw [List.cons_append, tooDeep?, tooDeep?, nesting_cons]
    split
    · rfl
    · rw [ih, Int.add_assoc]

theorem tooDeep?_eq_none (bound : depth ≤ maxDepth) :
    tooDeep? depth ts = none ↔ ∀ front, front <+: ts → depth + nesting front ≤ maxDepth := by
  induction ts generalizing depth with
  | nil => simpa [tooDeep?] using bound
  | cons t ts ih =>
    rw [tooDeep?]
    constructor
    · intro none front within
      split at none
      · cases none
      · rename_i shallow
        rcases List.prefix_cons_iff.mp within with rfl | ⟨tail, rfl, within⟩
        · simpa using bound
        · rw [nesting_cons, ← Int.add_assoc]
          exact (ih (Int.not_lt.mp shallow)).mp none tail (List.cons_prefix_cons.mp within).2
    · intro all
      have one := all [t] (by simp)
      rw [nesting_cons, nesting_nil, Int.add_zero] at one
      rw [if_neg (Int.not_lt.mpr one)]
      refine (ih one).mpr fun front within => ?_
      have longer := all (t :: front) (List.cons_prefix_cons.mpr ⟨rfl, within⟩)
      rwa [nesting_cons, ← Int.add_assoc] at longer

theorem of_tooDeep?_eq_some (bound : depth ≤ maxDepth) (found : tooDeep? depth ts = some t) :
    ∃ front back, ts = front ++ t :: back ∧ t.kind = .opening ∧ depth + nesting front = maxDepth ∧
      tooDeep? depth front = none := by
  induction ts generalizing depth with
  | nil => cases found
  | cons u us ih =>
    rw [tooDeep?] at found
    split at found
    · rename_i deep
      cases found
      have rise := rise_le t
      refine ⟨[], us, rfl, kind_of_rise (by omega), ?_, rfl⟩
      rw [nesting_nil]
      omega
    · rename_i shallow
      obtain ⟨front, back, rfl, kind, full, none⟩ := ih (Int.not_lt.mp shallow) found
      refine ⟨u :: front, back, rfl, kind, ?_, ?_⟩
      · rw [nesting_cons, ← Int.add_assoc]
        exact full
      · rw [tooDeep?, if_neg shallow]
        exact none

theorem shallow_iff : Shallow ts ↔ tooDeep? 0 ts = none := by
  rw [tooDeep?_eq_none (by decide)]
  simp only [Int.zero_add]
  rfl

theorem firstTooDeep_of_tooDeep? (found : tooDeep? 0 ts = some t) : FirstTooDeep ts t := by
  obtain ⟨front, back, same, kind, full, none⟩ := of_tooDeep?_eq_some (by decide) found
  exact ⟨front, back, same, kind, by simpa using full, shallow_iff.mpr none⟩

/-- A phrase closes the parentheses that it opens. -/
theorem Derives.nesting_eq_zero {sign : Token → Prop} {p : Phrase} {f : Formula}
    (h : Derives sign p ts f) : nesting ts = 0 := by
  induction h with
  | first _ ih => exact ih
  | @join front back t f g k _ kind _ left right =>
    have rise : t.rise = 0 := by simp [Token.rise, kind]
    rw [nesting_append, nesting_cons, left, rise, right]
    rfl
  | juxtapose _ _ left right =>
    rw [nesting_append, left, right]
    rfl
  | signed before _ behind ih =>
    have flat := nesting_of_flat fun t ht => rise_of_negation (before t ht).1
    have primes := nesting_of_flat fun t ht =>
      rise_of_negation (isNegation_of_isPrime (behind t ht))
    rw [nesting_append, nesting_append, flat, ih, primes]
    rfl
  | name kind => simp [Token.rise, kind]
  | constant kind => simp [Token.rise, kind]
  | enclosed opening _ closing ih =>
    rw [nesting_append, nesting_cons, ih, nesting_cons, rise_of_opening opening,
      rise_of_closing closing]
    rfl

end Switching
