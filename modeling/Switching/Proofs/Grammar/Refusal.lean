import Switching.Proofs.Grammar.Completeness
import Switching.Proofs.Grammar.Standing

/-! What the reader refuses. It goes as far as an expression goes on and no further, and it stops in
front of the first token behind which nothing leads to the end of an expression. -/
namespace Switching

def Standing.blame (s : Standing) (stop : Token) : List Token → Fault
  | [] => if s.due then .missingOperand stop else .missingClosing stop
  | t :: _ =>
    if t.kind = .opening then .nestedTooDeeply t
    else if s.due then .missingOperand t
    else .unexpectedToken t

namespace Reader

/-- The tokens from the one on that a fault reports. The parenthesis that opens one level too many
is read before it is reported. -/
def unread (cause : Fault) (rest : Reader) : List Token :=
  match cause with
  | .nestedTooDeeply t => t :: rest.ahead
  | _ => rest.ahead

namespace Stage

def standing (stage : Stage) (depth : Nat) : Standing :=
  match stage with
  | phrase _ => ⟨true, depth⟩
  | onward .. => ⟨false, depth⟩

/-- What is known of the tokens in front of a stage: the stages before have taken the signs of a
primary, and all that a chain could go on with before it comes to its own gates. -/
def Entered : Stage → List Token → Prop
  | phrase .primary, ahead => ∀ t ∈ ahead.head?, t.isNegation = false
  | phrase _, _ => True
  | onward level _, ahead => Ended (.chain level) ahead

def Left : Stage → List Token → Prop
  | phrase (.chain level), ahead | onward level _, ahead =>
    Ended (.chain level) ahead ∧ ∀ t ∈ ahead.head?, joint? level t = none
  | phrase .operand, ahead => Ended .operand ahead
  | phrase .primary, _ => True

end Stage

/-- The outcome is that of an expression that stands at `s` in front of the reader: what was read
leads behind an operand, or as far as it goes on. -/
def Follows (s : Standing) (left : List Token → Prop) (r : Reader) :
    Except Fault Formula × Reader → Prop
  | (.ok _, rest) => ∃ ts, Took r ts rest ∧ s.after ts = some ⟨false, r.depth⟩ ∧ left rest.ahead
  | (.error cause, rest) => ∃ front s', r.ahead = front ++ unread cause rest ∧
      s.after front = some s' ∧ s'.Refuses (unread cause rest) ∧
      cause = s'.blame r.stop (unread cause rest)

variable {r s rest : Reader} {f g left right : Formula} {t c : Token} {ts front back : List Token}
  {level : Tier} {k : Gate} {written : Bool} {p q : Standing} {ended : List Token → Prop}
  {o : Except Fault Formula × Reader} {cause : Fault} {stage : Stage}

theorem Follows.behind (took : Took r front s) (walked : p.after front = some q)
    (more : Follows q ended s o) : Follows p ended r o := by
  obtain ⟨outcome, rest⟩ := o
  cases outcome with
  | ok f =>
    obtain ⟨ts, tookMore, walkedMore, closed⟩ := more
    refine ⟨front ++ ts, took.trans tookMore, ?_, closed⟩
    rw [Standing.after_of_append walked, walkedMore, took.depth]
  | error cause =>
    obtain ⟨ts, q', ahead, walkedMore, refused, blamed⟩ := more
    refine ⟨front ++ ts, q', ?_, ?_, refused, took.stop ▸ blamed⟩
    · rw [took.ahead, ahead, List.append_assoc]
    · rw [Standing.after_of_append walked, walkedMore]

theorem Follows.of_joint (ahead : r.ahead = t :: ts) (joint : joint? level t = some (k, written))
    (prime : t.isPrime = false)
    (next : Follows ⟨true, (if written then r.advance else r).depth⟩ ended
      (if written then r.advance else r) o) : Follows ⟨false, r.depth⟩ ended r o := by
  cases written with
  | true =>
    rw [if_pos rfl, depth_advance] at next
    obtain ⟨kind, _⟩ := joint?_written joint
    have walked : Standing.after ⟨false, r.depth⟩ [t] = some ⟨true, r.depth⟩ := by
      rw [Standing.after_cons, Standing.step_gate kind]
      rfl
    exact next.behind (took_advance ahead) walked
  | false =>
    obtain ⟨_, _, starts⟩ := joint?_unwritten joint
    -- the first token leads to the same place, so what is read behind it is followed from there
    have same : Standing.step ⟨false, r.depth⟩ t = Standing.step ⟨true, r.depth⟩ t :=
      Standing.step_of_starts starts prime
    obtain ⟨outcome, rest⟩ := o
    cases outcome with
    | ok f =>
      obtain ⟨us, took, walked, closed⟩ := next
      cases us with
      | nil => cases walked
      | cons u us =>
        obtain ⟨rfl, _⟩ := List.cons.inj (ahead.symm.trans took.ahead)
        exact ⟨t :: us, took, by rw [Standing.after_cons, same]; exact walked, closed⟩
    | error cause =>
      obtain ⟨us, q, taken, walked, refused, blamed⟩ := next
      cases us with
      | nil =>
        cases walked
        have tokens : unread cause rest = t :: ts := Eq.trans taken.symm ahead
        rw [tokens] at refused blamed
        have kind : t.kind = .opening := Standing.opening_of_starts starts refused
        refine ⟨[], _, taken, rfl, ?_, ?_⟩
        · rw [tokens]
          exact same.trans refused
        · rw [tokens, blamed, Standing.blame, Standing.blame, if_pos kind, if_pos kind]
      | cons u us =>
        obtain ⟨rfl, _⟩ := List.cons.inj (ahead.symm.trans taken)
        exact ⟨t :: us, q, taken, by rw [Standing.after_cons, same]; exact walked, refused, blamed⟩

structure Framed (r : Reader) : Prop where
  inside : ∀ t ∈ r.ahead, t.isFinish = false
  marker : r.stop.isFinish = true

theorem Framed.took (h : Framed r) (took : Took r ts s) : Framed s where
  inside t ht := h.inside t (by rw [took.ahead]; exact List.mem_append_right _ ht)
  marker := took.stop.symm ▸ h.marker

theorem Framed.advance (h : Framed r) (ahead : r.ahead = t :: ts) : Framed r.advance :=
  h.took (took_advance ahead)

theorem Framed.next (h : Framed r) (ahead : r.ahead = t :: ts) :
    Framed (if written then r.advance else r) := by
  cases written with
  | true => exact h.advance ahead
  | false => exact h

theorem entered_part (level : Tier) (ahead : List Token) :
    Stage.Entered (.phrase level.part) ahead := by
  cases level <;> exact trivial

theorem ended_of_left {ahead : List Token} (h : Stage.Left (.phrase level.part) ahead) :
    Ended (.chain level) ahead := by
  cases level with
  | sum =>
    intro t ht
    refine ⟨(h.1 t ht).1, fun l tighter => ?_⟩
    by_cases same : l = .exclusive
    · exact same ▸ h.2 t ht
    · exact (h.1 t ht).2 l (by cases l <;> simp_all [Tier.rank])
  | exclusive =>
    intro t ht
    refine ⟨(h.1 t ht).1, fun l tighter => ?_⟩
    by_cases same : l = .product
    · exact same ▸ h.2 t ht
    · cases l <;> simp_all [Tier.rank]
  | product =>
    exact fun t ht => ⟨h t ht, fun l tighter => by cases l <;> simp [Tier.rank] at tighter⟩

theorem closing_of_left {ahead : List Token} (h : Stage.Left (.phrase (.chain .sum)) ahead)
    (inside : ∀ t ∈ ahead, t.isFinish = false) : ∀ t ∈ ahead.head?, t.kind = .closing := by
  intro t ht
  have marker := inside t (List.mem_of_mem_head? ht)
  have sum := h.2 t ht
  have exclusive := (h.1 t ht).2 .exclusive (by decide)
  have product := (h.1 t ht).2 .product (by decide)
  cases kind : t.kind with
  | gate k => cases tier : k.tier <;> simp_all [joint?]
  | name | constant | negation | opening =>
    simp [joint?, kind, TokenKind.startsOperand] at product
  | closing => rfl
  | finish => simp [Token.isFinish, kind] at marker

theorem Took.negate (n : Nat) (f : Formula) (took : Took r ts s) :
    Took r ts (Reader.negate n f s).2 where
  ahead := by rw [ahead_negate, took.ahead]
  depth := (depth_negate n f s).trans took.depth
  stop := (stop_negate n f s).trans took.stop

theorem head?_skip_while (p : Token → Bool) (r : Reader) :
    ∀ t ∈ (r.skip (r.ahead.takeWhile p).length).ahead.head?, p t = false := by
  intro t ht
  have dropped : r.ahead.drop (r.ahead.takeWhile p).length = r.ahead.dropWhile p :=
    (congrArg _ List.takeWhile_append_dropWhile.symm).trans List.drop_left
  rw [ahead_skip, dropped] at ht
  have stops := List.head?_dropWhile_not p r.ahead
  rwa [Option.mem_def.mp ht] at stops

theorem follows_operand (inner : Follows ⟨true, r.depth⟩ (fun _ => True) (r.skip r.negations)
      (.ok f, rest)) :
    Follows ⟨true, r.depth⟩ (Ended .operand) r
      (.ok (negate (rest.primes + r.negations) f (rest.skip rest.primes)).1,
        (negate (rest.primes + r.negations) f (rest.skip rest.primes)).2) := by
  obtain ⟨ts, took, walked, _⟩ := inner
  have signs : Took r _ (r.skip r.negations) := took_while Token.isNegation r
  have primes : Took rest _ (rest.skip rest.primes) := took_while Token.isPrime rest
  refine ⟨_, ((signs.trans took).trans primes).negate _ f, ?_, ?_⟩
  · rw [List.append_assoc, Standing.after_of_append (Standing.after_signs fun t ht =>
      List.mem_takeWhile_imp ht), Standing.after_of_append walked, depth_skip]
    exact Standing.after_primes fun t ht => List.mem_takeWhile_imp ht
  · rw [ahead_negate]
    exact head?_skip_while Token.isPrime rest

theorem Took.enclosed (framed : Framed r) (ahead : r.ahead = t :: ts)
    (took : Took r.advance.deepen back rest) (closed : rest.peek.kind = .closing) :
    ∃ c, c.kind = .closing ∧ Took r (t :: (back ++ [c])) rest.surface.advance := by
  have marker : rest.stop.isFinish = true := took.stop.symm ▸ (framed.advance ahead).marker
  have opened : rest.ahead ≠ [] := by
    intro nil
    have kind : rest.stop.kind = .closing := by simpa [peek, nil] using closed
    simp [Token.isFinish, kind] at marker
  obtain ⟨c, cs, next⟩ := List.exists_cons_of_ne_nil opened
  refine ⟨c, by simpa [peek, next] using closed, ?_, ?_, ?_⟩
  · have tail : ts = back ++ rest.ahead := by simpa [ahead] using took.ahead
    simp [ahead, tail, next]
  · have depth : rest.depth = r.depth + 1 := by simpa [deepen] using took.depth
    simp [surface, depth]
  · simpa [surface, deepen] using took.stop

theorem depth_within (r : Reader) : r.advance.deepen.depth = r.depth + 1 := by simp [deepen]

theorem Framed.within (h : Framed r) (ahead : r.ahead = t :: ts) : Framed r.advance.deepen :=
  ⟨(h.advance ahead).inside, (h.advance ahead).marker⟩

section Enclosed

variable (ahead : r.ahead = t :: ts) (kind : t.kind = .opening) (shallow : ¬maxDepth < r.depth + 1)

include ahead kind shallow

theorem follows_within (inner : Follows ⟨true, r.depth + 1⟩ ended r.advance.deepen
    (.error cause, rest)) : Follows ⟨true, r.depth⟩ (fun _ => True) r (.error cause, rest) := by
  obtain ⟨front, q, tokens, walked, refused, blamed⟩ := inner
  refine ⟨t :: front, q, ?_, ?_, refused, by simpa [deepen] using blamed⟩
  · rw [List.cons_append, ← tokens, ahead_deepen, ahead_advance, ahead, List.tail_cons]
  · rw [Standing.after_cons, Standing.step_opening kind (Nat.not_lt.mp shallow), Option.bind_some,
      walked]

theorem follows_enclosed (framed : Framed r)
    (inner : Follows ⟨true, r.depth + 1⟩ ended r.advance.deepen (.ok f, rest))
    (closed : rest.peek.kind = .closing) :
    Follows ⟨true, r.depth⟩ (fun _ => True) r (.ok f, rest.surface.advance) := by
  obtain ⟨us, took, walked, _⟩ := inner
  obtain ⟨c, closing, whole⟩ := took.enclosed framed ahead closed
  refine ⟨_, whole, ?_, trivial⟩
  rw [Standing.after_cons, Standing.step_opening kind (Nat.not_lt.mp shallow), Option.bind_some,
    Standing.after_of_append walked, depth_within, Standing.after_cons,
    Standing.step_closing closing]
  rfl

theorem follows_unclosed (framed : Framed r)
    (inner : Follows ⟨true, r.depth + 1⟩ (Stage.Left (.phrase (.chain .sum))) r.advance.deepen
      (.ok f, rest)) (unclosed : rest.peek.kind ≠ .closing) :
    Follows ⟨true, r.depth⟩ (fun _ => True) r
      (.error (.missingClosing rest.peek), rest.surface) := by
  obtain ⟨us, took, walked, closed⟩ := inner
  -- the expression inside stops at a closing parenthesis or at the end marker only
  have finished : rest.ahead = [] := by
    by_contra opened
    obtain ⟨c, cs, next⟩ := List.exists_cons_of_ne_nil opened
    have inside := ((framed.within ahead).took took).inside
    have closing := closing_of_left closed inside c (by simp [next])
    exact unclosed (by simpa [peek, next] using closing)
  have marker : rest.peek = r.advance.deepen.stop := by simpa [peek, finished] using took.stop
  have tokens : unread (.missingClosing rest.peek) rest.surface = [] := finished
  have halted : Follows ⟨true, r.depth + 1⟩ (fun _ => True) r.advance.deepen
      (.error (.missingClosing rest.peek), rest.surface) := by
    refine ⟨us, _, took.ahead, walked, ?_, ?_⟩
    · rw [tokens, depth_within]
      exact fun same => by cases same
    · rw [tokens, marker]
      rfl
  exact follows_within ahead kind shallow halted

end Enclosed

theorem follows_missing (signs : ∀ t ∈ r.ahead.head?, t.isNegation = false)
    (none : ∀ t ∈ r.ahead.head?, t.kind ≠ .name ∧ t.kind ≠ .constant ∧ t.kind ≠ .opening) :
    Follows ⟨true, r.depth⟩ ended r (.error (.missingOperand r.peek), r) := by
  refine ⟨[], _, rfl, rfl, ?_, ?_⟩
  · show Standing.Refuses _ r.ahead
    cases ahead : r.ahead with
    | nil => exact fun same => by cases same
    | cons t ts =>
      have sign : t.isNegation = false := signs t (by simp [ahead])
      obtain ⟨name, constant, opening⟩ := none t (by simp [ahead])
      cases kind : t.kind <;> simp_all [Standing.Refuses, Standing.step, Token.isNegation]
  · show _ = Standing.blame _ r.stop r.ahead
    cases ahead : r.ahead with
    | nil => simp [Standing.blame, peek, ahead]
    | cons t ts =>
      have opening := (none t (by simp [ahead])).2.2
      simp [Standing.blame, peek, ahead, opening]

/-- What is read goes as far as an expression goes on: to its end, or to what is refused. -/
theorem Reads.follows (h : Reads stage r o) (framed : Framed r)
    (entered : stage.Entered r.ahead) : Follows (stage.standing r.depth) stage.Left r o := by
  -- by the rules of reading: what a stage leaves is what the next one needs to be entered
  induction h with
  | @chain level r s f o _ _ first more =>
    obtain ⟨ts, took, walked, closed⟩ := first framed (entered_part level _)
    exact (more (framed.took took) (ended_of_left closed)).behind took (took.depth ▸ walked)
  | chainFault _ first => exact first framed (entered_part _ _)
  | finished ended => exact ⟨[], ⟨rfl, rfl, rfl⟩, rfl, entered, ended⟩
  | @joined level left right r s t ts k written o ahead joint _ _ next more =>
    have prime : t.isPrime = false := (entered t (by simp [ahead])).1
    obtain ⟨us, took, walked, closed⟩ :=
      Follows.of_joint ahead joint prime (next (framed.next ahead) (entered_part level _))
    have joined : Took r us (join k left right s).2 := ⟨took.ahead, took.depth, took.stop⟩
    exact (more (framed.took joined) (ended_of_left closed)).behind joined (joined.depth ▸ walked)
  | @joinedFault level left r s t ts k written cause ahead joint _ next =>
    have prime : t.isPrime = false := (entered t (by simp [ahead])).1
    exact Follows.of_joint ahead joint prime (next (framed.next ahead) (entered_part level _))
  | @operand r rest f _ inner =>
    have signs : Took r _ (r.skip r.negations) := took_while Token.isNegation r
    have primary := inner (framed.took signs) (head?_skip_while Token.isNegation r)
    exact follows_operand (depth_skip _ r ▸ primary)
  | @operandFault r rest cause _ inner =>
    have signs : Took r _ (r.skip r.negations) := took_while Token.isNegation r
    have primary := inner (framed.took signs) (head?_skip_while Token.isNegation r)
    refine primary.behind signs ?_
    rw [depth_skip]
    exact Standing.after_signs fun t ht => List.mem_takeWhile_imp ht
  | @name r t ts ahead kind =>
    have walked : Standing.after ⟨true, r.depth⟩ [t] = some ⟨false, r.depth⟩ := by
      simp [Standing.step_name kind]
    refine ⟨[t], ⟨by simp [ahead], ?_, ?_⟩, walked, trivial⟩
    · simp [leaf, bump, note]
    · simp [leaf, bump, note]
  | @constant r t ts ahead kind =>
    have walked : Standing.after ⟨true, r.depth⟩ [t] = some ⟨false, r.depth⟩ := by
      simp [Standing.step_constant kind]
    refine ⟨[t], ⟨by simp [ahead], ?_, ?_⟩, walked, trivial⟩
    · simp [leaf, bump]
    · simp [leaf, bump]
  | @tooDeep r t ts ahead kind deep =>
    have tokens : unread (.nestedTooDeeply t) r.advance.deepen = t :: ts := by
      simp [unread, ahead]
    have full : ¬r.depth < maxDepth := by omega
    refine ⟨[], _, ?_, rfl, ?_, ?_⟩
    · rw [tokens, List.nil_append, ahead]
    · rw [tokens]
      simp [Standing.Refuses, Standing.step, kind, Stage.standing, full]
    · rw [tokens, Standing.blame, if_pos kind]
  | @enclosed r s t ts f ahead kind shallow _ closed inner =>
    exact follows_enclosed ahead kind shallow framed
      (depth_within r ▸ inner (framed.within ahead) trivial) closed
  | @unclosed r s t ts f ahead kind shallow _ unclosed inner =>
    exact follows_unclosed ahead kind shallow framed
      (depth_within r ▸ inner (framed.within ahead) trivial) unclosed
  | @enclosedFault r s t ts cause ahead kind shallow _ inner =>
    exact follows_within ahead kind shallow (depth_within r ▸ inner (framed.within ahead) trivial)
  | missing none => exact follows_missing entered none

end Reader

end Switching
