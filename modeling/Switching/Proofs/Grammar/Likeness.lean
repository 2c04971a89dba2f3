import Switching.Proofs.Grammar.Acceptance

/-! What a reader sees of its tokens. Two lists of tokens that differ in nothing that it sees are
read alike, step by step: they give the same formula, or they are refused for the same reason at
corresponding tokens. -/
namespace Switching

/-- A reader sees no difference between the tokens: they are of one kind, both are primes or neither
is, and they have the same text where it is a name or a constant. -/
structure Token.Alike (t u : Token) : Prop where
  kind : u.kind = t.kind
  prime : u.isPrime = t.isPrime
  value : t.kind = .name ∨ t.kind = .constant → u.text = t.text

/-- The faults have the same reason, and they name related tokens or none. -/
inductive Fault.Parallel (related : Token → Token → Prop) : Fault → Fault → Prop
  | emptyExpression : Parallel related .emptyExpression .emptyExpression
  | unexpectedToken {t u : Token} (same : related t u) :
      Parallel related (.unexpectedToken t) (.unexpectedToken u)
  | nestedTooDeeply {t u : Token} (same : related t u) :
      Parallel related (.nestedTooDeeply t) (.nestedTooDeeply u)
  | missingClosing {t u : Token} (same : related t u) :
      Parallel related (.missingClosing t) (.missingClosing u)
  | missingOperand {t u : Token} (same : related t u) :
      Parallel related (.missingOperand t) (.missingOperand u)

/-- Both texts are accepted, with the same formula and the same names, or both are refused for the
same reason at related tokens. -/
inductive Formula.Agree (related : Token → Token → Prop) :
    Except Fault Parsed → Except Fault Parsed → Prop
  | accepted (p : Parsed) : Agree related (.ok p) (.ok p)
  | refused {cause cause' : Fault} (same : cause.Parallel related cause') :
      Agree related (.error cause) (.error cause')

namespace Reader

structure Parallel (related : Token → Token → Prop) (r r' : Reader) : Prop where
  ahead : List.Forall₂ related r.ahead r'.ahead
  stop : related r.stop r'.stop
  depth : r'.depth = r.depth
  names : r'.names = r.names
  nextId : r'.nextId = r.nextId

inductive Matches (related : Token → Token → Prop) :
    Except Fault Formula × Reader → Except Fault Formula × Reader → Prop
  | formula {f : Formula} {rest rest' : Reader} (parallel : Parallel related rest rest') :
      Matches related (.ok f, rest) (.ok f, rest')
  | fault {cause cause' : Fault} {rest rest' : Reader} (same : cause.Parallel related cause')
      (parallel : Parallel related rest rest') :
      Matches related (.error cause, rest) (.error cause', rest')

variable {related : Token → Token → Prop} {r r' : Reader} {t u : Token} {ts us : List Token}
  {f : Formula}

section Steps

variable (h : Parallel related r r')

include h

theorem Parallel.exists_cons (ahead : r.ahead = t :: ts) :
    ∃ u us, r'.ahead = u :: us ∧ related t u ∧ List.Forall₂ related ts us := by
  have both := h.ahead
  rw [ahead] at both
  generalize r'.ahead = ahead' at both
  cases both with
  | cons same more => exact ⟨_, _, rfl, same, more⟩

theorem Parallel.eq_nil_iff : r'.ahead = [] ↔ r.ahead = [] := by
  rw [← List.length_eq_zero_iff, ← List.length_eq_zero_iff, h.ahead.length_eq]

theorem Parallel.head? : ∀ u ∈ r'.ahead.head?, ∃ t ∈ r.ahead.head?, related t u := by
  have both := h.ahead
  generalize r.ahead = ahead, r'.ahead = ahead' at both
  cases both with
  | nil => exact fun u none => nomatch none
  | cons same more =>
    rintro u ⟨⟩
    exact ⟨_, rfl, same⟩

theorem Parallel.peek : related r.peek r'.peek := by
  have both := h.ahead
  have stop := h.stop
  unfold Reader.peek
  generalize r.ahead = ahead, r'.ahead = ahead' at both
  cases both with
  | nil => exact stop
  | cons same more => exact same

theorem Parallel.advance : Parallel related r.advance r'.advance := by
  cases ahead : r.ahead with
  | nil =>
    have ahead' := h.eq_nil_iff.mpr ahead
    simpa only [Reader.advance, ahead, ahead'] using h
  | cons t ts =>
    obtain ⟨u, us, ahead', _, more⟩ := h.exists_cons ahead
    rw [advance_of_cons ahead, advance_of_cons ahead']
    exact ⟨more, h.stop, h.depth, h.names, h.nextId⟩

theorem Parallel.skip (n : Nat) : Parallel related (r.skip n) (r'.skip n) := by
  induction n generalizing r r' with
  | zero => exact h
  | succ n ih => exact ih h.advance

theorem Parallel.bump : Parallel related r.bump r'.bump :=
  ⟨h.ahead, h.stop, h.depth, h.names, congrArg (· + 1) h.nextId⟩

theorem Parallel.note (x : String) : Parallel related (r.note x) (r'.note x) :=
  ⟨h.ahead, h.stop, h.depth, congrArg (insertOrdered x) h.names, h.nextId⟩

theorem Parallel.deepen : Parallel related r.deepen r'.deepen :=
  ⟨h.ahead, h.stop, congrArg (· + 1) h.depth, h.names, h.nextId⟩

theorem Parallel.surface : Parallel related r.surface r'.surface :=
  ⟨h.ahead, h.stop, congrArg (· - 1) h.depth, h.names, h.nextId⟩

theorem Parallel.join (k : Gate) (left right : Formula) :
    (Reader.join k left right r').1 = (Reader.join k left right r).1 ∧
      Parallel related (Reader.join k left right r).2 (Reader.join k left right r').2 := by
  unfold Reader.join
  exact ⟨by rw [h.nextId], h.bump⟩

theorem Parallel.leaf (leafOf : Int → Formula) :
    (Reader.leaf leafOf r').1 = (Reader.leaf leafOf r).1 ∧
      Parallel related (Reader.leaf leafOf r).2 (Reader.leaf leafOf r').2 := by
  unfold Reader.leaf
  exact ⟨by rw [h.nextId], h.advance.bump⟩

theorem Parallel.negate (n : Nat) (f : Formula) :
    (Reader.negate n f r').1 = (Reader.negate n f r).1 ∧
      Parallel related (Reader.negate n f r).2 (Reader.negate n f r').2 := by
  induction n generalizing f r r' with
  | zero => exact ⟨rfl, h⟩
  | succ n ih =>
    have more := ih h.bump (.not f r.nextId)
    unfold Reader.negate
    rw [h.nextId]
    exact more

theorem Parallel.operator (written : Bool) :
    Parallel related (if written then r.advance else r) (if written then r'.advance else r') := by
  cases written
  · exact h
  · exact h.advance

end Steps

section Alike

variable (alike : ∀ t u, related t u → t.Alike u)

include alike

theorem length_takeWhile_eq {p : Token → Bool} (seen : ∀ t u, t.Alike u → p u = p t)
    (both : List.Forall₂ related ts us) : (us.takeWhile p).length = (ts.takeWhile p).length := by
  induction both with
  | nil => rfl
  | @cons t u ts us same more ih =>
    rw [List.takeWhile_cons, List.takeWhile_cons, seen t u (alike t u same)]
    split
    · exact congrArg (· + 1) ih
    · rfl

theorem Parallel.negations (h : Parallel related r r') : r'.negations = r.negations :=
  length_takeWhile_eq alike (fun t u same => by rw [Token.isNegation, same.kind]; rfl) h.ahead

theorem Parallel.primes (h : Parallel related r r') : r'.primes = r.primes :=
  length_takeWhile_eq alike (fun _ _ same => same.prime) h.ahead

theorem joint?_eq (same : related t u) (level : Tier) : joint? level u = joint? level t := by
  unfold joint?
  rw [(alike t u same).kind]

theorem Reads.parallel {stage : Stage} {o : Except Fault Formula × Reader} (h : Reads stage r o)
    (start : Parallel related r r') : ∃ o', Reads stage r' o' ∧ Matches related o o' := by
  -- by the rules of reading: the rule that gave the one outcome gives the other one
  induction h generalizing r' with
  | chain _ _ first more =>
    obtain ⟨_, first', ⟨parallel⟩⟩ := first start
    obtain ⟨o', more', matched⟩ := more parallel
    exact ⟨o', .chain first' more', matched⟩
  | chainFault _ first =>
    obtain ⟨_, first', matched⟩ := first start
    cases matched with
    | fault same parallel => exact ⟨_, .chainFault first', .fault same parallel⟩
  | finished ended =>
    refine ⟨_, .finished fun u hu => ?_, .formula start⟩
    obtain ⟨t, ht, same⟩ := start.head? u hu
    rw [joint?_eq alike same, ended t ht]
  | @joined level left right r rest t ts k written o ahead joint _ _ next more =>
    obtain ⟨u, us, ahead', same, _⟩ := start.exists_cons ahead
    obtain ⟨_, next', ⟨parallel⟩⟩ := next (start.operator written)
    obtain ⟨formula, joined⟩ := parallel.join k left right
    obtain ⟨o', more', matched⟩ := more joined
    rw [← formula] at more'
    exact ⟨o', .joined ahead' ((joint?_eq alike same level).trans joint) next' more', matched⟩
  | @joinedFault level left r rest t ts k written cause ahead joint _ next =>
    obtain ⟨u, us, ahead', same, _⟩ := start.exists_cons ahead
    obtain ⟨_, next', matched⟩ := next (start.operator written)
    cases matched with
    | fault cause parallel =>
      exact ⟨_, .joinedFault ahead' ((joint?_eq alike same level).trans joint) next',
        .fault cause parallel⟩
  | @operand r rest f _ inner =>
    obtain ⟨_, inner', ⟨parallel⟩⟩ := inner (start.skip r.negations)
    rename_i rest'
    have signs := start.negations alike
    have primes := parallel.primes alike
    obtain ⟨formula, negated⟩ :=
      (parallel.skip rest.primes).negate (rest.primes + r.negations) f
    rw [← signs] at inner'
    have whole := Reads.operand inner'
    rw [signs, primes, formula] at whole
    exact ⟨_, whole, .formula negated⟩
  | @operandFault r rest cause _ inner =>
    obtain ⟨_, inner', matched⟩ := inner (start.skip r.negations)
    rw [← start.negations alike] at inner'
    cases matched with
    | fault same parallel => exact ⟨_, .operandFault inner', .fault same parallel⟩
  | @name r t ts ahead kind =>
    obtain ⟨u, us, ahead', same, _⟩ := start.exists_cons ahead
    have text : u.text = t.text := (alike t u same).value (.inl kind)
    obtain ⟨formula, read⟩ := start.leaf (.var t.text)
    have whole := Reads.name ahead' ((alike t u same).kind.trans kind)
    rw [text, formula] at whole
    exact ⟨_, whole, .formula (read.note t.text)⟩
  | @constant r t ts ahead kind =>
    obtain ⟨u, us, ahead', same, _⟩ := start.exists_cons ahead
    have text : u.text = t.text := (alike t u same).value (.inr kind)
    obtain ⟨formula, read⟩ := start.leaf (.const (t.text == "1"))
    have whole := Reads.constant ahead' ((alike t u same).kind.trans kind)
    rw [text, formula] at whole
    exact ⟨_, whole, .formula read⟩
  | @tooDeep r t ts ahead kind deep =>
    obtain ⟨u, us, ahead', same, _⟩ := start.exists_cons ahead
    exact ⟨_, .tooDeep ahead' ((alike t u same).kind.trans kind) (start.depth.symm ▸ deep),
      .fault (.nestedTooDeeply same) start.advance.deepen⟩
  | @enclosed r rest t ts f ahead kind shallow _ closed inner =>
    obtain ⟨u, us, ahead', same, _⟩ := start.exists_cons ahead
    obtain ⟨_, inner', ⟨parallel⟩⟩ := inner start.advance.deepen
    have closed' := (alike _ _ parallel.peek).kind.trans closed
    exact ⟨_, .enclosed ahead' ((alike t u same).kind.trans kind) (start.depth.symm ▸ shallow)
      inner' closed', .formula parallel.surface.advance⟩
  | @unclosed r rest t ts f ahead kind shallow _ unclosed inner =>
    obtain ⟨u, us, ahead', same, _⟩ := start.exists_cons ahead
    obtain ⟨_, inner', ⟨parallel⟩⟩ := inner start.advance.deepen
    have unclosed' := (alike _ _ parallel.peek).kind.trans_ne unclosed
    exact ⟨_, .unclosed ahead' ((alike t u same).kind.trans kind) (start.depth.symm ▸ shallow)
      inner' unclosed', .fault (.missingClosing parallel.peek) parallel.surface⟩
  | @enclosedFault r rest t ts cause ahead kind shallow _ inner =>
    obtain ⟨u, us, ahead', same, _⟩ := start.exists_cons ahead
    obtain ⟨_, inner', matched⟩ := inner start.advance.deepen
    cases matched with
    | fault cause parallel =>
      exact ⟨_, .enclosedFault ahead' ((alike t u same).kind.trans kind)
        (start.depth.symm ▸ shallow) inner', .fault cause parallel⟩
  | missing none =>
    refine ⟨_, .missing fun u hu => ?_, .fault (.missingOperand start.peek) start⟩
    obtain ⟨t, ht, same⟩ := start.head? u hu
    rw [(alike t u same).kind]
    exact none t ht

theorem Parallel.parse (h : Parallel related r r') :
    Formula.Agree related r.parse.1 r'.parse.1 := by
  by_cases empty : r.ahead = []
  · rw [parse_eq, if_pos empty, parse_eq, if_pos (h.eq_nil_iff.mpr empty)]
    exact .refused .emptyExpression
  · have opened : r'.ahead ≠ [] := h.eq_nil_iff.not.mpr empty
    cases answer : read (.phrase (.chain .sum)) r with
    | mk result rest =>
      obtain ⟨_, answer', matched⟩ := (reads_iff.mpr answer).parallel alike h
      cases matched with
      | fault same parallel =>
        rw [parse_of_read_fault empty answer, parse_of_read_fault opened (reads_iff.mp answer')]
        exact .refused same
      | formula parallel =>
        rw [parse_of_read empty answer, parse_of_read opened (reads_iff.mp answer')]
        by_cases ended : rest.ahead = []
        · rw [if_pos ended, if_pos (parallel.eq_nil_iff.mpr ended), parallel.names]
          exact .accepted _
        · rw [if_neg ended, if_neg (parallel.eq_nil_iff.not.mpr ended)]
          exact .refused (.unexpectedToken parallel.peek)

theorem unfinished_of_related (both : List.Forall₂ related ts us)
    (inside : ∀ t ∈ ts, t.kind ≠ .finish) : ∀ u ∈ us, u.kind ≠ .finish := by
  induction both with
  | nil => exact inside
  | @cons t u ts us same more ih =>
    obtain ⟨first, others⟩ := List.forall_mem_cons.mp inside
    exact List.forall_mem_cons.mpr ⟨(alike t u same).kind.trans_ne first, ih others⟩

theorem parallel_ofTokens {last last' : Token} (both : List.Forall₂ related ts us)
    (inside : ∀ t ∈ ts, t.kind ≠ .finish) (finish : last.kind = .finish)
    (ends : related last last') :
    Parallel related (ofTokens (ts ++ [last])) (ofTokens (us ++ [last'])) := by
  have inside' := unfinished_of_related alike both inside
  have finish' : last'.kind = .finish := (alike last last' ends).kind.trans finish
  have ahead : (ofTokens (ts ++ [last])).ahead = ts := Formula.body_concat inside finish
  have ahead' : (ofTokens (us ++ [last'])).ahead = us := Formula.body_concat inside' finish'
  refine ⟨?_, ?_, rfl, rfl, rfl⟩
  · rw [ahead, ahead']
    exact both
  · rw [Formula.stop_ofTokens inside finish, Formula.stop_ofTokens inside' finish']
    exact ends

end Alike

end Reader

/-- Lists of tokens that a reader sees no difference between are parsed alike. -/
theorem Formula.agree_ofTokens {related : Token → Token → Prop} {ts us : List Token}
    {last last' : Token} (alike : ∀ t u, related t u → t.Alike u)
    (both : List.Forall₂ related ts us) (inside : ∀ t ∈ ts, t.kind ≠ .finish)
    (finish : last.kind = .finish) (ends : related last last') :
    Agree related (ofTokens (ts ++ [last])) (ofTokens (us ++ [last'])) :=
  (Reader.parallel_ofTokens alike both inside finish ends).parse alike

end Switching
