import Switching.Proofs.Grammar.Progress
import Switching.Proofs.Grammar.Refusal

/-! Which token lists are accepted, and where the others are refused. Accepted are the lists that a
derivation gives in which any negation may be a sign, a prime too, with no parenthesis nested too
deeply. A fault is reported at the first token behind which no list is accepted. -/
namespace Switching

def Fault.token? : Fault → Option Token
  | unexpectedToken t | nestedTooDeeply t | missingClosing t | missingOperand t => some t
  | _ => none

theorem append_ne_of_head {front whole : String} {c d : Char} (first : front.toList.head? = some c)
    (other : whole.toList.head? = some d) (distinct : c ≠ d) (back : String) :
    front ++ back ≠ whole := by
  intro same
  have heads : (front ++ back).toList.head? = whole.toList.head? := by rw [same]
  rw [String.toList_append, List.head?_append, first, other, Option.some_or] at heads
  exact distinct (Option.some.inj heads)

theorem Fault.of_message_missing {cause : Fault} {t : Token} (named : cause.token? = some t)
    (message : cause.message = "Missing closing parenthesis") : cause = .missingClosing t := by
  have first : "Missing closing parenthesis".toList.head? = some 'M' := by decide
  cases cause with
  | missingClosing u => exact congrArg _ (Option.some.inj named)
  | nestedTooDeeply u =>
    have other : "Expression is nested too deeply" ≠ "Missing closing parenthesis" := by decide
    exact absurd message other
  | unexpectedToken u =>
    have head : "Unexpected token: ".toList.head? = some 'U' := by decide
    exact absurd message (append_ne_of_head head first (by decide) _)
  | missingOperand u =>
    have ends : "Unexpected end of expression" ≠ "Missing closing parenthesis" := by decide
    have head : "Expected variable or value, got: ".toList.head? = some 'E' := by decide
    have word : (if u.isFinish then "Unexpected end of expression"
        else "Expected variable or value, got: " ++ u.text) = "Missing closing parenthesis" :=
      message
    split at word
    · exact absurd word ends
    · exact absurd word (append_ne_of_head head first (by decide) _)
  | _ => cases named

theorem Standing.token?_blame (s : Standing) (stop : Token) (ts : List Token) :
    (s.blame stop ts).token? = some (ts.head?.getD stop) := by
  unfold blame
  split <;> split
  · rfl
  · rfl
  · rfl
  · split <;> rfl

theorem Standing.eq_nil_of_missing {s : Standing} {stop : Token} {ts : List Token}
    (message : (s.blame stop ts).message = "Missing closing parenthesis") : ts = [] := by
  have cause := Fault.of_message_missing (token?_blame s stop ts) message
  cases ts with
  | nil => rfl
  | cons t ts =>
    simp only [blame] at cause
    split at cause
    · cases cause
    · split at cause <;> cases cause

namespace Reader

variable {r rest : Reader} {p : Parsed} {cause : Fault} {o : Except Fault Formula × Reader}
  {stage : Stage}

theorem framed_ofTokens (tokens : List Token) : Framed (Reader.ofTokens tokens) where
  inside t ht := by simpa using List.mem_takeWhile_imp ht
  marker := isFinish_stop tokens

/-- The index of the token that a fault reports: where the reader stands, or the parenthesis that it
has just read. -/
def reportedAt (cause : Fault) (rest : Reader) : Nat :=
  match cause with
  | .nestedTooDeeply _ => rest.index - 1
  | _ => rest.index

theorem reportedAt_eq {front : List Token} (extent : rest.extent = r.extent)
    (unstarted : r.index = 0) (ahead : r.ahead = front ++ unread cause rest) :
    reportedAt cause rest = front.length := by
  rw [Reader.extent, Reader.extent, unstarted, ahead, List.length_append] at extent
  cases cause <;> simp only [reportedAt, unread, List.length_cons] at extent ⊢ <;> omega

theorem refuses_of_parse (framed : Framed r) (surface : r.depth = 0)
    (rejected : r.parse = (.error cause, rest)) :
    rest.extent = r.extent ∧ ∃ front s, r.ahead = front ++ unread cause rest ∧
      Standing.start.after front = some s ∧ s.Refuses (unread cause rest) ∧
      (cause = .emptyExpression ∧ r.ahead = [] ∨
        cause = s.blame r.stop (unread cause rest)) := by
  rw [parse_eq] at rejected
  split at rejected
  · rename_i empty
    cases rejected
    have tokens : unread .emptyExpression r = [] := empty
    refine ⟨rfl, [], .start, rfl, rfl, ?_, .inl ⟨rfl, empty⟩⟩
    rw [tokens]
    exact fun same => by cases same
  · cases answer : read (.phrase (.chain .sum)) r with
    | mk result rest =>
      rw [answer] at rejected
      have extent := (reads_iff.mpr answer).leads.extent
      have follows := (reads_iff.mpr answer).follows framed trivial
      rw [surface] at follows
      cases result with
      | error cause =>
        cases rejected
        obtain ⟨front, s, ahead, walked, refused, blamed⟩ := follows
        exact ⟨extent, front, s, ahead, walked, refused, .inr blamed⟩
      | ok f =>
        obtain ⟨ts, took, walked, closed⟩ := follows
        rw [surface] at walked
        simp only at rejected
        split at rejected
        · cases rejected
        · rename_i more
          cases rejected
          obtain ⟨t, us, next⟩ := List.exists_cons_of_ne_nil more
          have closing := closing_of_left closed (framed.took took).inside t (by simp [next])
          refine ⟨extent, ts, .done, took.ahead, walked, ?_, .inr ?_⟩
          · simp [unread, next, Standing.Refuses, Standing.step, closing, Standing.done]
          · simp [unread, next, peek, Standing.blame, closing, Standing.done]

end Reader

namespace Formula

theorem after_of_ofTokens {tokens : List Token} {p : Parsed} (accepted : ofTokens tokens = .ok p) :
    Standing.start.after (Token.body tokens) = some .done := by
  obtain ⟨rest, answer, finished, _⟩ := exists_read accepted
  obtain ⟨ts, took, walked, _⟩ :=
    (Reader.reads_iff.mpr answer).follows (Reader.framed_ofTokens tokens) trivial
  have whole : Token.body tokens = ts := by
    simpa [finished, Reader.ofTokens, Token.body] using took.ahead
  exact whole ▸ walked

theorem accepted_iff (tokens : List Token) :
    (∃ p, ofTokens tokens = .ok p) ↔ Standing.start.after (Token.body tokens) = some .done := by
  have framed := Reader.framed_ofTokens tokens
  constructor
  · rintro ⟨p, accepted⟩
    exact after_of_ofTokens accepted
  · intro walked
    cases result : (Reader.ofTokens tokens).parse with
    | mk answer rest =>
      cases answer with
      | ok p => exact ⟨p, congrArg Prod.fst result⟩
      | error cause =>
        obtain ⟨_, front, s, ahead, reached, refused, _⟩ :=
          Reader.refuses_of_parse framed rfl result
        have whole : Token.body tokens = front ++ Reader.unread cause rest := ahead
        rw [whole, Standing.after_of_append reached] at walked
        exact absurd walked (Standing.not_done_of_refuses refused)

/-- Accepted is what a derivation gives in which any negation may be a sign, with no parenthesis
nested too deeply. -/
theorem accepted_iff_derives (tokens : List Token) :
    (∃ p, ofTokens tokens = .ok p) ↔
      (∃ f, Derives (fun _ => True) (.chain .sum) (Token.body tokens) f) ∧
        Shallow (Token.body tokens) := by
  constructor
  · rintro ⟨p, accepted⟩
    have walked := (accepted_iff tokens).mp ⟨p, accepted⟩
    have shallow := Standing.tooDeep?_of_after walked (Nat.zero_le _)
    exact ⟨⟨_, (derives_of_ofTokens accepted).1⟩, shallow_iff.mpr shallow⟩
  · rintro ⟨⟨f, derived⟩, shallow⟩
    exact (accepted_iff tokens).mpr (derived.after_start shallow)

/-- A prime in front of an operand is accepted as its negation, though no expression of the grammar
begins with a prime. -/
theorem ofTokens_leading_prime :
    let tokens : List Token := [⟨.negation, "'", 0, 1⟩, ⟨.name, "A", 1, 1⟩, .finish 2]
    ofTokens tokens = .ok ⟨.not (.var "A" 1) 2, ["A"]⟩ ∧
      ∀ f, ¬Expression (Token.body tokens) f := by
  intro tokens
  refine ⟨by decide +kernel, fun f derived => ?_⟩
  obtain ⟨t, rest, same, _, allowed⟩ := derived.exists_head
  obtain ⟨rfl, _⟩ := List.cons.inj same
  exact absurd (allowed rfl) (by decide)

section Earliest

variable {ts : List Token} {last : Token} {cause : Fault} {rest : Reader}

theorem body_append (inside : ∀ t ∈ ts, t.kind ≠ .finish) (more : List Token) :
    Token.body (ts ++ more) = ts ++ Token.body more := by
  have whole : ∀ t ∈ ts, (!t.isFinish) = true := by simpa [Token.isFinish] using inside
  exact List.takeWhile_append_of_pos whole

theorem body_finish (finish : last.kind = .finish) : Token.body [last] = [] := by
  simp [Token.body, Token.isFinish, finish]

theorem body_concat (inside : ∀ t ∈ ts, t.kind ≠ .finish) (finish : last.kind = .finish) :
    Token.body (ts ++ [last]) = ts := by
  rw [body_append inside, body_finish finish, List.append_nil]

theorem stop_ofTokens (inside : ∀ t ∈ ts, t.kind ≠ .finish) (finish : last.kind = .finish) :
    (Reader.ofTokens (ts ++ [last])).stop = last := by
  have none : ts.find? (·.isFinish) = none :=
    List.find?_eq_none.mpr fun t ht => by simpa [Token.isFinish] using inside t ht
  have marker : last.isFinish = true := by simp [Token.isFinish, finish]
  simp [Reader.ofTokens, List.find?_append, none, marker]

variable {front more : List Token} {t : Token} {s : Standing} {p : Parsed}

theorem exists_accepted (inside : ∀ t ∈ front, t.kind ≠ .finish) (finish : last.kind = .finish)
    (walked : Standing.start.after front = some s) :
    ∃ more, (∀ t ∈ more, t.kind ≠ .finish) ∧ ∃ p, ofTokens (front ++ more ++ [last]) = .ok p := by
  obtain ⟨more, unfinished, completed⟩ := s.exists_completion
  have plain : ∀ t ∈ more, t.kind ≠ .finish := by simpa [Token.isFinish] using unfinished
  have whole : ∀ t ∈ front ++ more, t.kind ≠ .finish :=
    List.forall_mem_append.mpr ⟨inside, plain⟩
  refine ⟨more, plain, ?_⟩
  rw [accepted_iff, body_concat whole finish, Standing.after_of_append walked, completed]

theorem not_accepted (inside : ∀ u ∈ front, u.kind ≠ .finish) (plain : t.kind ≠ .finish)
    (walked : Standing.start.after front = some s) (refused : s.step t = none) :
    ofTokens (front ++ [t] ++ more) ≠ .ok p := by
  intro accepted
  have whole : ∀ u ∈ front ++ [t], u.kind ≠ .finish :=
    List.forall_mem_append.mpr ⟨inside, List.forall_mem_singleton.mpr plain⟩
  have leads := (accepted_iff _).mp ⟨p, accepted⟩
  rw [body_append whole, List.append_assoc, Standing.after_of_append walked] at leads
  simp [refused] at leads

/-- A fault is reported as early as can be. Its token is that at the reported index; the tokens in
front of it begin some accepted list; with it they begin none, unless it is the end marker; and a
missing parenthesis is reported at the end marker only. -/
theorem ofTokens_earliest (inside : ∀ t ∈ ts, t.kind ≠ .finish) (finish : last.kind = .finish)
    (rejected : (Reader.ofTokens (ts ++ [last])).parse = (.error cause, rest)) :
    Reader.reportedAt cause rest ≤ ts.length ∧
    (∀ t, cause.token? = some t → (ts ++ [last])[Reader.reportedAt cause rest]? = some t) ∧
    (∃ more, (∀ t ∈ more, t.kind ≠ .finish) ∧
      ∃ p, ofTokens (ts.take (Reader.reportedAt cause rest) ++ more ++ [last]) = .ok p) ∧
    (Reader.reportedAt cause rest < ts.length →
      ∀ more p, ofTokens (ts.take (Reader.reportedAt cause rest + 1) ++ more) ≠ .ok p) ∧
    (cause.message = "Missing closing parenthesis" →
      Reader.reportedAt cause rest = ts.length) := by
  have body : Token.body (ts ++ [last]) = ts := by
    rw [body_append inside, body_finish finish, List.append_nil]
  obtain ⟨extent, front, s, ahead, walked, refused, blamed⟩ :=
    Reader.refuses_of_parse (Reader.framed_ofTokens _) rfl rejected
  have index : Reader.reportedAt cause rest = front.length := Reader.reportedAt_eq extent rfl ahead
  -- from here on only the split of the tokens matters, not how the reader came to it
  generalize Reader.unread cause rest = left at ahead refused blamed
  obtain rfl : ts = front ++ left := body.symm.trans ahead
  obtain ⟨within, behind⟩ := List.forall_mem_append.mp inside
  rw [stop_ofTokens inside finish] at blamed
  rw [index, List.take_left]
  refine ⟨by simp, fun t named => ?_, exists_accepted within finish walked,
    fun shorter more p => ?_, fun message => ?_⟩
  · rcases blamed with ⟨rfl, _⟩ | rfl
    · cases named
    · rw [Standing.token?_blame] at named
      rw [← named, List.append_assoc, List.getElem?_append_right (Nat.le_refl _), Nat.sub_self]
      cases left <;> rfl
  · cases left with
    | nil => simp at shorter
    | cons t left =>
      rw [List.take_length_add_append, List.take_succ_cons, List.take_zero]
      exact not_accepted within (behind t (List.mem_cons_self ..)) walked refused
  · rcases blamed with ⟨rfl, empty⟩ | rfl
    · rw [List.append_eq_nil_iff.mp (ahead.symm.trans empty) |>.2, List.append_nil]
    · rw [Standing.eq_nil_of_missing message, List.append_nil]

end Earliest

theorem ofTokens_earliest_dangling :
    let ts : List Token := [⟨.opening, "(", 0, 1⟩, ⟨.name, "A", 1, 1⟩, ⟨.gate .or, "+", 2, 1⟩,
      ⟨.closing, ")", 3, 1⟩]
    let answer := (Reader.ofTokens (ts ++ [.finish 4])).parse
    answer.1 = .error (.missingOperand ⟨.closing, ")", 3, 1⟩) ∧ (∀ t ∈ ts, t.kind ≠ .finish) ∧
      (∃ more p, ofTokens (ts.take 3 ++ more ++ [.finish 4]) = .ok p) ∧
      ∀ more p, ofTokens (ts.take 4 ++ more) ≠ .ok p := by
  intro ts answer
  have outcome : answer.1 = .error (.missingOperand ⟨.closing, ")", 3, 1⟩) := by decide +kernel
  have rejected : answer = (.error (.missingOperand ⟨.closing, ")", 3, 1⟩), answer.2) :=
    Prod.ext outcome rfl
  have inside : ∀ t ∈ ts, t.kind ≠ .finish := by decide
  have index : answer.2.index = 3 := by decide +kernel
  obtain ⟨_, _, ⟨more, _, p, accepted⟩, refused, _⟩ := ofTokens_earliest inside rfl rejected
  simp only [Reader.reportedAt, index] at accepted refused
  exact ⟨outcome, inside, ⟨more, p, accepted⟩, refused (by decide)⟩

end Formula

end Switching
