import Switching.Proofs.Grammar.Derivation

/-! What reading gives, as a relation between a reader and the outcome: one rule for every way in
which a phrase can end. The relation is the graph of the recursive functions, so an outcome is found
by the rules, and what is true of all outcomes is proved by induction on the rules. -/
namespace Switching

namespace Reply

variable {bound : Nat} {reply : Reply bound} {f : Formula} {cause : Fault} {rest : Reader}

theorem eq_formula (h : reply.outcome = (.ok f, rest)) :
    ∃ shorter, reply = .formula f rest shorter := by
  cases reply with
  | formula f rest shorter =>
    cases h
    exact ⟨shorter, rfl⟩
  | fault cause rest => cases h

theorem eq_fault (h : reply.outcome = (.error cause, rest)) : reply = .fault cause rest := by
  cases reply with
  | formula f rest shorter => cases h
  | fault cause rest =>
    cases h
    rfl

end Reply

namespace Reader

/-- A stage of reading: a phrase from its front, or a chain that goes on behind `left`. -/
inductive Stage
  | phrase (p : Phrase)
  | onward (level : Tier) (left : Formula)

def read : Stage → Reader → Except Fault Formula × Reader
  | .phrase (.chain level), r => (tier level r).outcome
  | .phrase .operand, r => (unary r).outcome
  | .phrase .primary, r => (primary r).outcome
  | .onward level left, r => (chain level left r).outcome

/-- The rules of reading. -/
inductive Reads : Stage → Reader → Except Fault Formula × Reader → Prop
  | chain {level : Tier} {r rest : Reader} {f : Formula} {o : Except Fault Formula × Reader}
      (first : Reads (.phrase level.part) r (.ok f, rest)) (more : Reads (.onward level f) rest o) :
      Reads (.phrase (.chain level)) r o
  | chainFault {level : Tier} {r rest : Reader} {cause : Fault}
      (first : Reads (.phrase level.part) r (.error cause, rest)) :
      Reads (.phrase (.chain level)) r (.error cause, rest)
  | finished {level : Tier} {left : Formula} {r : Reader}
      (ended : ∀ t ∈ r.ahead.head?, joint? level t = none) :
      Reads (.onward level left) r (.ok left, r)
  | joined {level : Tier} {left right : Formula} {r rest : Reader} {t : Token} {ts : List Token}
      {k : Gate} {written : Bool} {o : Except Fault Formula × Reader} (ahead : r.ahead = t :: ts)
      (joint : joint? level t = some (k, written))
      (next : Reads (.phrase level.part) (if written then r.advance else r) (.ok right, rest))
      (more : Reads (.onward level (join k left right rest).1) (join k left right rest).2 o) :
      Reads (.onward level left) r o
  | joinedFault {level : Tier} {left : Formula} {r rest : Reader} {t : Token} {ts : List Token}
      {k : Gate} {written : Bool} {cause : Fault} (ahead : r.ahead = t :: ts)
      (joint : joint? level t = some (k, written))
      (next : Reads (.phrase level.part) (if written then r.advance else r) (.error cause, rest)) :
      Reads (.onward level left) r (.error cause, rest)
  | operand {r rest : Reader} {f : Formula}
      (inner : Reads (.phrase .primary) (r.skip r.negations) (.ok f, rest)) :
      Reads (.phrase .operand) r
        (.ok (negate (rest.primes + r.negations) f (rest.skip rest.primes)).1,
          (negate (rest.primes + r.negations) f (rest.skip rest.primes)).2)
  | operandFault {r rest : Reader} {cause : Fault}
      (inner : Reads (.phrase .primary) (r.skip r.negations) (.error cause, rest)) :
      Reads (.phrase .operand) r (.error cause, rest)
  | name {r : Reader} {t : Token} {ts : List Token} (ahead : r.ahead = t :: ts)
      (kind : t.kind = .name) :
      Reads (.phrase .primary) r
        (.ok (leaf (.var t.text) r).1, (leaf (.var t.text) r).2.note t.text)
  | constant {r : Reader} {t : Token} {ts : List Token} (ahead : r.ahead = t :: ts)
      (kind : t.kind = .constant) :
      Reads (.phrase .primary) r
        (.ok (leaf (.const (t.text == "1")) r).1, (leaf (.const (t.text == "1")) r).2)
  | tooDeep {r : Reader} {t : Token} {ts : List Token} (ahead : r.ahead = t :: ts)
      (kind : t.kind = .opening) (deep : maxDepth < r.depth + 1) :
      Reads (.phrase .primary) r (.error (.nestedTooDeeply t), r.advance.deepen)
  | enclosed {r rest : Reader} {t : Token} {ts : List Token} {f : Formula}
      (ahead : r.ahead = t :: ts) (kind : t.kind = .opening) (shallow : ¬maxDepth < r.depth + 1)
      (inner : Reads (.phrase (.chain .sum)) r.advance.deepen (.ok f, rest))
      (closed : rest.peek.kind = .closing) :
      Reads (.phrase .primary) r (.ok f, rest.surface.advance)
  | unclosed {r rest : Reader} {t : Token} {ts : List Token} {f : Formula}
      (ahead : r.ahead = t :: ts) (kind : t.kind = .opening) (shallow : ¬maxDepth < r.depth + 1)
      (inner : Reads (.phrase (.chain .sum)) r.advance.deepen (.ok f, rest))
      (unclosed : rest.peek.kind ≠ .closing) :
      Reads (.phrase .primary) r (.error (.missingClosing rest.peek), rest.surface)
  | enclosedFault {r rest : Reader} {t : Token} {ts : List Token} {cause : Fault}
      (ahead : r.ahead = t :: ts) (kind : t.kind = .opening) (shallow : ¬maxDepth < r.depth + 1)
      (inner : Reads (.phrase (.chain .sum)) r.advance.deepen (.error cause, rest)) :
      Reads (.phrase .primary) r (.error cause, rest)
  | missing {r : Reader}
      (none : ∀ t ∈ r.ahead.head?, t.kind ≠ .name ∧ t.kind ≠ .constant ∧ t.kind ≠ .opening) :
      Reads (.phrase .primary) r (.error (.missingOperand r.peek), r)

section Equations

variable {level : Tier} {left right f : Formula} {r rest : Reader} {t : Token} {ts : List Token}
  {k : Gate} {written : Bool} {cause : Fault}

theorem read_part (level : Tier) (r : Reader) :
    read (.phrase level.part) r = (Reader.operand level r).outcome := by
  cases level <;> rw [Reader.operand] <;> rfl

theorem read_chain (first : read (.phrase level.part) r = (.ok f, rest)) :
    read (.phrase (.chain level)) r = read (.onward level f) rest := by
  rw [read_part] at first
  obtain ⟨shorter, found⟩ := Reply.eq_formula first
  rw [read, read, tier, found]
  exact Reply.outcome_mono _ _

theorem read_chain_fault (first : read (.phrase level.part) r = (.error cause, rest)) :
    read (.phrase (.chain level)) r = (.error cause, rest) := by
  rw [read_part] at first
  rw [read, tier, Reply.eq_fault first]
  rfl

theorem read_onward_end (ended : ∀ t ∈ r.ahead.head?, joint? level t = none) :
    read (.onward level left) r = (.ok left, r) := by
  rw [read]
  obtain ⟨past, ahead, stop, last, depth, names, nextId⟩ := r
  cases ahead with
  | nil =>
    rw [chain]
    rfl
  | cons t ts =>
    have none : joint? level t = none := ended t rfl
    rw [chain]
    simp only [none]
    rfl

theorem read_onward (ahead : r.ahead = t :: ts) (joint : joint? level t = some (k, written))
    (next : read (.phrase level.part) (if written then r.advance else r) = (.ok right, rest)) :
    read (.onward level left) r =
      read (.onward level (join k left right rest).1) (join k left right rest).2 := by
  rw [read_part] at next
  obtain ⟨shorter, found⟩ := Reply.eq_formula next
  rw [read, read]
  obtain ⟨past, _, stop, last, depth, names, nextId⟩ := r
  cases ahead
  rw [chain]
  simp only [joint, found]
  exact Reply.outcome_mono _ _

theorem read_onward_fault (ahead : r.ahead = t :: ts) (joint : joint? level t = some (k, written))
    (next : read (.phrase level.part) (if written then r.advance else r) = (.error cause, rest)) :
    read (.onward level left) r = (.error cause, rest) := by
  rw [read_part] at next
  have found := Reply.eq_fault next
  rw [read]
  obtain ⟨past, _, stop, last, depth, names, nextId⟩ := r
  cases ahead
  rw [chain]
  simp only [joint, found]
  rfl

theorem read_operand (inner : read (.phrase .primary) (r.skip r.negations) = (.ok f, rest)) :
    read (.phrase .operand) r =
      (.ok (negate (rest.primes + r.negations) f (rest.skip rest.primes)).1,
        (negate (rest.primes + r.negations) f (rest.skip rest.primes)).2) := by
  obtain ⟨shorter, found⟩ := Reply.eq_formula inner
  rw [read, unary, found]
  rfl

theorem read_operand_fault
    (inner : read (.phrase .primary) (r.skip r.negations) = (.error cause, rest)) :
    read (.phrase .operand) r = (.error cause, rest) := by
  rw [read, unary, Reply.eq_fault inner]
  rfl

theorem read_name (ahead : r.ahead = t :: ts) (kind : t.kind = .name) :
    read (.phrase .primary) r =
      (.ok (leaf (.var t.text) r).1, (leaf (.var t.text) r).2.note t.text) := by
  rw [read]
  obtain ⟨past, _, stop, last, depth, names, nextId⟩ := r
  cases ahead
  rw [primary]
  simp only [kind]
  rfl

theorem read_constant (ahead : r.ahead = t :: ts) (kind : t.kind = .constant) :
    read (.phrase .primary) r =
      (.ok (leaf (.const (t.text == "1")) r).1, (leaf (.const (t.text == "1")) r).2) := by
  rw [read]
  obtain ⟨past, _, stop, last, depth, names, nextId⟩ := r
  cases ahead
  rw [primary]
  simp only [kind]
  rfl

theorem read_tooDeep (ahead : r.ahead = t :: ts) (kind : t.kind = .opening)
    (deep : maxDepth < r.depth + 1) :
    read (.phrase .primary) r = (.error (.nestedTooDeeply t), r.advance.deepen) := by
  rw [read]
  obtain ⟨past, _, stop, last, depth, names, nextId⟩ := r
  cases ahead
  rw [primary]
  simp only [kind, if_pos deep]
  rfl

theorem read_enclosed (ahead : r.ahead = t :: ts) (kind : t.kind = .opening)
    (shallow : ¬maxDepth < r.depth + 1)
    (inner : read (.phrase (.chain .sum)) r.advance.deepen = (.ok f, rest)) :
    read (.phrase .primary) r =
      if rest.peek.kind = .closing then (.ok f, rest.surface.advance)
      else (.error (.missingClosing rest.peek), rest.surface) := by
  obtain ⟨shorter, found⟩ := Reply.eq_formula inner
  rw [read]
  obtain ⟨past, _, stop, last, depth, names, nextId⟩ := r
  cases ahead
  rw [primary]
  simp only [kind, if_neg shallow, found]
  by_cases closing : rest.peek.kind = .closing
  · simp only [if_pos closing]
    rfl
  · simp only [if_neg closing]
    rfl

theorem read_enclosed_fault (ahead : r.ahead = t :: ts) (kind : t.kind = .opening)
    (shallow : ¬maxDepth < r.depth + 1)
    (inner : read (.phrase (.chain .sum)) r.advance.deepen = (.error cause, rest)) :
    read (.phrase .primary) r = (.error cause, rest) := by
  have found := Reply.eq_fault inner
  rw [read]
  obtain ⟨past, _, stop, last, depth, names, nextId⟩ := r
  cases ahead
  rw [primary]
  simp only [kind, if_neg shallow, found]
  rfl

theorem read_missing
    (none : ∀ t ∈ r.ahead.head?, t.kind ≠ .name ∧ t.kind ≠ .constant ∧ t.kind ≠ .opening) :
    read (.phrase .primary) r = (.error (.missingOperand r.peek), r) := by
  rw [read]
  obtain ⟨past, ahead, stop, last, depth, names, nextId⟩ := r
  cases ahead with
  | nil =>
    rw [primary]
    rfl
  | cons t ts =>
    obtain ⟨name, constant, opening⟩ := none t rfl
    rw [primary]
    cases kind : t.kind <;> simp_all <;> rfl

end Equations

theorem Reads.eq_read {stage : Stage} {r : Reader} {o : Except Fault Formula × Reader}
    (h : Reads stage r o) : read stage r = o := by
  induction h with
  | chain _ _ first more => rw [read_chain first, more]
  | chainFault _ first => exact read_chain_fault first
  | finished ended => exact read_onward_end ended
  | joined ahead joint _ _ next more => rw [read_onward ahead joint next, more]
  | joinedFault ahead joint _ next => exact read_onward_fault ahead joint next
  | operand _ inner => exact read_operand inner
  | operandFault _ inner => exact read_operand_fault inner
  | name ahead kind => exact read_name ahead kind
  | constant ahead kind => exact read_constant ahead kind
  | tooDeep ahead kind deep => exact read_tooDeep ahead kind deep
  | enclosed ahead kind shallow _ closed inner =>
    rw [read_enclosed ahead kind shallow inner, if_pos closed]
  | unclosed ahead kind shallow _ unclosed inner =>
    rw [read_enclosed ahead kind shallow inner, if_neg unclosed]
  | enclosedFault ahead kind shallow _ inner => exact read_enclosed_fault ahead kind shallow inner
  | missing none => exact read_missing none

theorem reads_all :
    (∀ level r, Reads (.phrase (.chain level)) r (read (.phrase (.chain level)) r)) ∧
    (∀ level left r, Reads (.onward level left) r (read (.onward level left) r)) ∧
    (∀ (level : Tier) r, Reads (.phrase level.part) r (read (.phrase level.part) r)) ∧
    (∀ r, Reads (.phrase .operand) r (read (.phrase .operand) r)) ∧
    ∀ r, Reads (.phrase .primary) r (read (.phrase .primary) r) := by
  -- by the recursion of the functions, one goal for each of their branches
  refine tier.mutual_induct
    (fun level r => Reads (.phrase (.chain level)) r (read (.phrase (.chain level)) r))
    (fun level left r => Reads (.onward level left) r (read (.onward level left) r))
    (fun level r => Reads (.phrase level.part) r (read (.phrase level.part) r))
    (fun r => Reads (.phrase .operand) r (read (.phrase .operand) r))
    (fun r => Reads (.phrase .primary) r (read (.phrase .primary) r))
    ?chainFault ?chain ?atEnd ?ended ?joinedFault ?joined ?sum ?exclusive ?product ?operandFault
    ?operand ?nothing ?constant ?name ?tooDeep ?enclosedFault ?enclosed ?unclosed ?other
  case chainFault =>
    intro level r cause rest found first
    have step : read (.phrase level.part) r = (.error cause, rest) := by
      rw [read_part, found, Reply.outcome]
    rw [read_chain_fault step]
    exact .chainFault (step ▸ first)
  case chain =>
    intro level r f rest shorter found first more
    have step : read (.phrase level.part) r = (.ok f, rest) := by
      rw [read_part, found, Reply.outcome]
    rw [read_chain step]
    exact .chain (step ▸ first) more
  case atEnd =>
    intro level left r ahead
    have ended : ∀ t ∈ r.ahead.head?, joint? level t = none := by simp [ahead]
    rw [read_onward_end ended]
    exact .finished ended
  case ended =>
    intro level left r t ts ahead none
    have ended : ∀ t ∈ r.ahead.head?, joint? level t = Option.none := by simpa [ahead] using none
    rw [read_onward_end ended]
    exact .finished ended
  case joinedFault =>
    intro level left r t ts ahead k written joint cause rest found next
    have step : read (.phrase level.part) (if written then r.advance else r) =
        (.error cause, rest) := by
      rw [read_part]
      exact congrArg Reply.outcome found
    rw [read_onward_fault ahead joint step]
    exact .joinedFault ahead joint (step ▸ next)
  case joined =>
    intro level left r t ts ahead k written joint right rest shorter found _ next more
    have step : read (.phrase level.part) (if written then r.advance else r) =
        (.ok right, rest) := by
      rw [read_part]
      exact congrArg Reply.outcome found
    rw [read_onward ahead joint step]
    exact .joined ahead joint (step ▸ next) more
  case sum => exact fun r chain => chain
  case exclusive => exact fun r chain => chain
  case product => exact fun r operand => operand
  case operandFault =>
    intro r cause rest found inner
    have step : read (.phrase .primary) (r.skip r.negations) = (.error cause, rest) := by
      rw [read, found, Reply.outcome]
    rw [read_operand_fault step]
    exact .operandFault (step ▸ inner)
  case operand =>
    intro r f rest shorter found inner
    have step : read (.phrase .primary) (r.skip r.negations) = (.ok f, rest) := by
      rw [read, found, Reply.outcome]
    rw [read_operand step]
    exact .operand (step ▸ inner)
  case nothing =>
    intro r ahead
    have none : ∀ t ∈ r.ahead.head?,
        t.kind ≠ .name ∧ t.kind ≠ .constant ∧ t.kind ≠ .opening := by simp [ahead]
    rw [read_missing none]
    exact .missing none
  case constant =>
    intro r t ts ahead kind
    rw [read_constant ahead kind]
    exact .constant ahead kind
  case name =>
    intro r t ts ahead kind
    rw [read_name ahead kind]
    exact .name ahead kind
  case tooDeep =>
    intro r t ts ahead kind deep
    rw [read_tooDeep ahead kind deep]
    exact .tooDeep ahead kind deep
  case enclosedFault =>
    intro r t ts ahead kind shallow cause rest found inner
    have step : read (.phrase (.chain .sum)) r.advance.deepen = (.error cause, rest) := by
      rw [read, found, Reply.outcome]
    rw [read_enclosed_fault ahead kind shallow step]
    exact .enclosedFault ahead kind shallow (step ▸ inner)
  case enclosed =>
    intro r t ts ahead kind shallow f rest shorter found closed inner
    have step : read (.phrase (.chain .sum)) r.advance.deepen = (.ok f, rest) := by
      rw [read, found, Reply.outcome]
    rw [read_enclosed ahead kind shallow step, if_pos closed]
    exact .enclosed ahead kind shallow (step ▸ inner) closed
  case unclosed =>
    intro r t ts ahead kind shallow f rest shorter found unclosed inner
    have step : read (.phrase (.chain .sum)) r.advance.deepen = (.ok f, rest) := by
      rw [read, found, Reply.outcome]
    rw [read_enclosed ahead kind shallow step, if_neg unclosed]
    exact .unclosed ahead kind shallow (step ▸ inner) unclosed
  case other =>
    intro r t ts ahead constant name opening
    have none : ∀ t ∈ r.ahead.head?,
        t.kind ≠ .name ∧ t.kind ≠ .constant ∧ t.kind ≠ .opening := by
      simpa [ahead] using ⟨name, constant, opening⟩
    rw [read_missing none]
    exact .missing none

/-- The rules give one outcome for every stage and reader, and it is what reading gives. -/
theorem reads_iff {stage : Stage} {r : Reader} {o : Except Fault Formula × Reader} :
    Reads stage r o ↔ read stage r = o := by
  constructor
  · exact Reads.eq_read
  · rintro rfl
    obtain ⟨chains, onwards, _, operands, primaries⟩ := reads_all
    match stage with
    | .phrase (.chain level) => exact chains level r
    | .phrase .operand => exact operands r
    | .phrase .primary => exact primaries r
    | .onward level left => exact onwards level left r

theorem parse_eq (r : Reader) :
    r.parse = if r.ahead = [] then (.error .emptyExpression, r)
      else match read (.phrase (.chain .sum)) r with
        | (.error cause, rest) => (.error cause, rest)
        | (.ok f, rest) =>
          if rest.ahead = [] then (.ok ⟨f, rest.names⟩, rest)
          else (.error (.unexpectedToken rest.peek), rest) := by
  rw [parse, read, expression]
  simp only [isAtEnd, List.isEmpty_iff]
  cases tier .sum r with
  | formula f rest shorter => rfl
  | fault cause rest => rfl

theorem parse_of_read {r rest : Reader} {f : Formula} (opened : r.ahead ≠ [])
    (answer : read (.phrase (.chain .sum)) r = (.ok f, rest)) :
    r.parse.1 = if rest.ahead = [] then .ok ⟨f, rest.names⟩
      else .error (.unexpectedToken rest.peek) := by
  rw [parse_eq, if_neg opened, answer]
  simp only
  split <;> rfl

theorem parse_of_read_fault {r rest : Reader} {cause : Fault} (opened : r.ahead ≠ [])
    (answer : read (.phrase (.chain .sum)) r = (.error cause, rest)) :
    r.parse.1 = .error cause := by
  rw [parse_eq, if_neg opened, answer]

end Reader

end Switching
