import Mathlib.Data.List.TakeWhile
import Switching.Proofs.Grammar.Reading
import Switching.Proofs.Names

/-! What is read is derived. A reader that gives a formula has taken a derivation of it from its
front, has met the names of the formula, and is as deep as before. Any negation is read as a sign,
a prime too. -/
namespace Switching

namespace Reader

variable {r s rest : Reader} {f g : Formula} {t : Token} {ts front back : List Token} {n : Nat}
  {level : Tier} {k : Gate} {written : Bool}

@[simp]
theorem depth_advance (r : Reader) : r.advance.depth = r.depth := by
  rw [advance]
  split <;> rfl

@[simp]
theorem stop_advance (r : Reader) : r.advance.stop = r.stop := by
  rw [advance]
  split <;> rfl

@[simp]
theorem names_advance (r : Reader) : r.advance.names = r.names := by
  rw [advance]
  split <;> rfl

@[simp]
theorem depth_skip (n : Nat) (r : Reader) : (r.skip n).depth = r.depth := by
  induction n generalizing r with
  | zero => rfl
  | succ n ih => rw [skip, ih, depth_advance]

@[simp]
theorem stop_skip (n : Nat) (r : Reader) : (r.skip n).stop = r.stop := by
  induction n generalizing r with
  | zero => rfl
  | succ n ih => rw [skip, ih, stop_advance]

@[simp]
theorem names_skip (n : Nat) (r : Reader) : (r.skip n).names = r.names := by
  induction n generalizing r with
  | zero => rfl
  | succ n ih => rw [skip, ih, names_advance]

@[simp]
theorem depth_negate (n : Nat) (f : Formula) (r : Reader) : (negate n f r).2.depth = r.depth := by
  induction n generalizing f r with
  | zero => rfl
  | succ n ih => exact ih _ _

@[simp]
theorem stop_negate (n : Nat) (f : Formula) (r : Reader) : (negate n f r).2.stop = r.stop := by
  induction n generalizing f r with
  | zero => rfl
  | succ n ih => exact ih _ _

@[simp]
theorem names_negate (n : Nat) (f : Formula) (r : Reader) : (negate n f r).2.names = r.names := by
  induction n generalizing f r with
  | zero => rfl
  | succ n ih => exact ih _ _

theorem mem_names_negate {x : String} (n : Nat) (f : Formula) (r : Reader) :
    x ∈ (negate n f r).1.names ↔ x ∈ f.names := by
  induction n generalizing f r with
  | zero => exact Iff.rfl
  | succ n ih => exact (ih _ _).trans Formula.mem_names_not

theorem shape_negate (n : Nat) (f : Formula) (r : Reader) :
    (negate n f r).1.shape = .negated n f.shape := by
  induction n generalizing f r with
  | zero => rfl
  | succ n ih => exact (ih _ _).trans (Formula.negated_add n 1 f.shape).symm

structure Took (r : Reader) (ts : List Token) (rest : Reader) : Prop where
  ahead : r.ahead = ts ++ rest.ahead
  depth : rest.depth = r.depth
  stop : rest.stop = r.stop

theorem Took.trans (first : Took r front s) (second : Took s back rest) :
    Took r (front ++ back) rest where
  ahead := by rw [first.ahead, second.ahead, List.append_assoc]
  depth := second.depth.trans first.depth
  stop := second.stop.trans first.stop

theorem took_advance (ahead : r.ahead = t :: ts) : Took r [t] r.advance where
  ahead := by simp [ahead]
  depth := depth_advance r
  stop := stop_advance r

theorem took_while (p : Token → Bool) (r : Reader) :
    Took r (r.ahead.takeWhile p) (r.skip (r.ahead.takeWhile p).length) where
  ahead := by
    rw [ahead_skip]
    exact (List.prefix_iff_eq_append.mp (List.takeWhile_prefix p)).symm
  depth := depth_skip _ r
  stop := stop_skip _ r

structure Met (r : Reader) (f : Formula) (rest : Reader) : Prop where
  names : ∀ x, x ∈ rest.names ↔ x ∈ r.names ∨ x ∈ f.names
  ascending : r.names.Pairwise (· < ·) → rest.names.Pairwise (· < ·)

theorem Met.join (first : Met r f s) (second : Met s g rest) {i : Int} :
    Met r (.gate k f g i) rest where
  names x := by rw [second.names, first.names, Formula.mem_names_gate, or_assoc]
  ascending h := second.ascending (first.ascending h)

def Spells (p : Phrase) (r : Reader) (f : Formula) (rest : Reader) : Prop :=
  ∃ ts, Derives (fun _ => True) p ts f.shape ∧ Took r ts rest ∧ Met r f rest

theorem joint?_written (h : joint? level t = some (k, true)) :
    t.kind = .gate k ∧ k.tier = level := by
  unfold joint? at h
  split at h
  · rename_i g kind
    split at h
    · rename_i same
      cases h
      exact ⟨kind, same⟩
    · cases h
  · split at h <;> cases h

theorem joint?_unwritten (h : joint? level t = some (k, false)) :
    k = .and ∧ level = .product ∧ t.kind.startsOperand = true := by
  unfold joint? at h
  split at h
  · split at h <;> cases h
  · split at h
    · rename_i starts
      cases h
      simpa using starts
    · cases h

theorem spells_join (left : Spells (.chain level) r f s) (ahead : s.ahead = t :: ts)
    (joint : joint? level t = some (k, written))
    (right : Spells level.part (if written then s.advance else s) g rest) :
    Spells (.chain level) r (join k f g rest).1 (join k f g rest).2 := by
  obtain ⟨front, derivesLeft, tookLeft, metLeft⟩ := left
  obtain ⟨back, derivesRight, tookRight, metRight⟩ := right
  cases written with
  | true =>
    obtain ⟨kind, rfl⟩ := joint?_written joint
    have took := tookLeft.trans ((took_advance ahead).trans tookRight)
    have met : Met s g rest := ⟨fun x => names_advance s ▸ metRight.names x,
      fun h => metRight.ascending (by simpa using h)⟩
    have joined : Met r (.gate k f g rest.nextId) rest := metLeft.join met
    exact ⟨_, .join derivesLeft kind derivesRight, ⟨took.ahead, took.depth, took.stop⟩,
      ⟨joined.names, joined.ascending⟩⟩
  | false =>
    obtain ⟨rfl, rfl, _⟩ := joint?_unwritten joint
    have took := tookLeft.trans tookRight
    have joined : Met r (.gate .and f g rest.nextId) rest := metLeft.join metRight
    exact ⟨_, .juxtapose derivesLeft derivesRight, ⟨took.ahead, took.depth, took.stop⟩,
      ⟨joined.names, joined.ascending⟩⟩

theorem spells_operand (inner : Spells .primary (r.skip r.negations) f rest) :
    Spells .operand r (negate (rest.primes + r.negations) f (rest.skip rest.primes)).1
      (negate (rest.primes + r.negations) f (rest.skip rest.primes)).2 := by
  obtain ⟨ts, derived, took, met⟩ := inner
  have whole := ((took_while Token.isNegation r).trans took).trans (took_while Token.isPrime rest)
  have before : ∀ t ∈ r.ahead.takeWhile Token.isNegation, t.isNegation = true ∧ True :=
    fun t ht => ⟨List.mem_takeWhile_imp ht, trivial⟩
  have behind : ∀ t ∈ rest.ahead.takeWhile Token.isPrime, t.isPrime = true :=
    fun t ht => List.mem_takeWhile_imp ht
  have signed := Derives.signed before derived behind
  rw [← Formula.negated_add, Nat.add_comm] at signed
  refine ⟨_, (shape_negate ..).symm ▸ signed, ⟨?_, ?_, ?_⟩, ⟨fun x => ?_, fun h => ?_⟩⟩
  · rw [ahead_negate]
    exact whole.ahead
  · rw [depth_negate]
    exact whole.depth
  · rw [stop_negate]
    exact whole.stop
  · rw [names_negate, names_skip, mem_names_negate, met.names, names_skip]
  · rw [names_negate, names_skip]
    exact met.ascending (by simpa using h)

theorem spells_enclosed (ahead : r.ahead = t :: ts) (kind : t.kind = .opening)
    (inner : Spells (.chain .sum) r.advance.deepen f rest) (closed : rest.peek.kind = .closing)
    (finish : r.stop.isFinish = true) : Spells .primary r f rest.surface.advance := by
  obtain ⟨middle, derived, took, met⟩ := inner
  have stop : rest.stop = r.stop := by simpa [deepen] using took.stop
  have opened : rest.ahead ≠ [] := by
    intro nil
    have marker : r.stop.kind = .closing := by simpa [peek, nil, stop] using closed
    simp [Token.isFinish, marker] at finish
  obtain ⟨c, cs, next⟩ := List.exists_cons_of_ne_nil opened
  have last : c.kind = .closing := by simpa [peek, next] using closed
  refine ⟨_, .enclosed kind derived last, ⟨?_, ?_, ?_⟩, ⟨fun x => ?_, fun h => ?_⟩⟩
  · have tail : ts = middle ++ rest.ahead := by simpa [ahead] using took.ahead
    simp [ahead, tail, next]
  · have depth : rest.depth = r.depth + 1 := by simpa [deepen] using took.depth
    simp [surface, depth]
  · simpa [surface] using stop
  · simpa [surface, deepen] using met.names x
  · simpa [surface] using met.ascending (by simpa [deepen] using h)

/-- What a stage of reading spells: an onward stage goes on with what is spelled already. -/
def StageSpells : Stage → Reader → Formula → Reader → Prop
  | .phrase p, r, f, rest => Spells p r f rest
  | .onward level left, s, f, rest =>
    ∀ r, Spells (.chain level) r left s → Spells (.chain level) r f rest

theorem Reads.spells {stage : Stage} {o : Except Fault Formula × Reader} (h : Reads stage r o)
    (finish : r.stop.isFinish = true) (answer : o.1 = .ok f) : StageSpells stage r f o.2 := by
  induction h generalizing f with
  | @chain level r s left o _ _ first more =>
    obtain ⟨ts, derived, took, met⟩ := first finish rfl
    exact more (took.stop ▸ finish) answer r ⟨ts, .first derived, took, met⟩
  | finished ended =>
    cases answer
    exact fun _ spelled => spelled
  | @joined level left right r s t ts k written o ahead joint _ _ next more =>
    have same : (if written then r.advance else r).stop = r.stop := by
      cases written <;> simp
    have spelled : Spells level.part (if written then r.advance else r) right s :=
      next (same ▸ finish) rfl
    have stop : s.stop = r.stop := by
      obtain ⟨_, _, took, _⟩ := spelled
      exact took.stop.trans same
    intro r₀ left
    exact more (stop ▸ finish) answer r₀ (spells_join left ahead joint spelled)
  | operand _ inner =>
    cases answer
    exact spells_operand (inner (by simpa using finish) rfl)
  | @name r t ts ahead kind =>
    cases answer
    refine ⟨[t], .name kind, ⟨by simp [ahead, leaf], ?_, ?_⟩, ⟨fun x => ?_, fun h => ?_⟩⟩
    · simp [leaf, bump, note]
    · simp [leaf, bump, note]
    · simp [leaf, bump, note, mem_insertOrdered, or_comm]
    · simpa [leaf, bump, note] using pairwise_insertOrdered h
  | @constant r t ts ahead kind =>
    cases answer
    refine ⟨[t], .constant kind, ⟨by simp [ahead, leaf], ?_, ?_⟩, ⟨fun x => ?_, fun h => ?_⟩⟩
    · simp [leaf, bump]
    · simp [leaf, bump]
    · simp [leaf, bump]
    · simpa [leaf, bump] using h
  | enclosed ahead kind shallow _ closed inner =>
    cases answer
    exact spells_enclosed ahead kind (inner (by simpa [deepen] using finish) rfl) closed finish
  | chainFault | joinedFault | operandFault | tooDeep | unclosed | enclosedFault | missing =>
    cases answer

theorem read_spells {p : Phrase} (finish : r.stop.isFinish = true)
    (answer : read (.phrase p) r = (.ok f, rest)) : Spells p r f rest :=
  Reads.spells (reads_iff.mpr answer) finish rfl

theorem isFinish_stop (tokens : List Token) : (Reader.ofTokens tokens).stop.isFinish = true := by
  cases found : tokens.find? (·.isFinish) with
  | some t => simpa [Reader.ofTokens, found] using List.find?_some found
  | none =>
    simp only [Reader.ofTokens, found, Option.getD_none, endMarker]
    split
    · split
      · assumption
      · rfl
    · rfl

end Reader

def Token.body (tokens : List Token) : List Token := tokens.takeWhile (!·.isFinish)

namespace Formula

variable {tokens : List Token} {p : Parsed}

theorem exists_read (accepted : ofTokens tokens = .ok p) :
    ∃ rest, Reader.read (.phrase (.chain .sum)) (Reader.ofTokens tokens) = (.ok p.formula, rest) ∧
      rest.ahead = [] ∧ p.names = rest.names := by
  rw [ofTokens] at accepted
  by_cases opened : (Reader.ofTokens tokens).ahead = []
  · rw [Reader.parse, if_pos (by simpa [Reader.isAtEnd] using opened)] at accepted
    cases accepted
  cases answer : Reader.read (.phrase (.chain .sum)) (Reader.ofTokens tokens) with
  | mk result rest =>
    cases result with
    | error cause =>
      rw [Reader.parse_of_read_fault opened answer] at accepted
      cases accepted
    | ok f =>
      rw [Reader.parse_of_read opened answer] at accepted
      split at accepted
      · rename_i last
        cases accepted
        exact ⟨rest, rfl, last, rfl⟩
      · cases accepted

/-- What is accepted is derived, and the names that were met are those of the formula. -/
theorem derives_of_ofTokens (accepted : ofTokens tokens = .ok p) :
    Derives (fun _ => True) (.chain .sum) (Token.body tokens) p.formula.shape ∧
      p.names = p.formula.names := by
  obtain ⟨rest, answer, last, names⟩ := exists_read accepted
  obtain ⟨ts, derived, took, met⟩ := Reader.read_spells (Reader.isFinish_stop tokens) answer
  have whole : Token.body tokens = ts := by
    simpa [last, Reader.ofTokens, Token.body] using took.ahead
  refine ⟨whole ▸ derived, names.trans ?_⟩
  refine (met.ascending .nil).eq_of_mem_iff p.formula.pairwise_names fun x => ?_
  simpa [Reader.ofTokens] using met.names x

end Formula

end Switching
