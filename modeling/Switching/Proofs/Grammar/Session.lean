import Switching.Grammar.Session
import Switching.Proofs.Grammar.Numbering
import Switching.Proofs.Grammar.Progress

/-! What every move of a session keeps, from wherever the moves before have left the reader, those
that failed too. The reader goes forward and stays inside its list, and its depth does not sink. A
move that succeeds leaves the depth as it was, and one that gives a formula has met its names and
numbered its nodes. -/
namespace Switching

namespace Reader

variable {r rest : Reader} {f : Formula} {tokens : List Token}

def terminated (tokens : List Token) : List Token :=
  if tokens.getLast?.any Token.isFinish then tokens else tokens ++ [endMarker tokens]

theorem getLast?_terminated (tokens : List Token) :
    (terminated tokens).getLast? = some (endMarker tokens) := by
  unfold terminated
  split
  · rename_i ended
    obtain ⟨t, found, finish⟩ := (Option.any_eq_true ..).mp ended
    unfold endMarker
    simp only [found, finish, if_true]
  · exact List.getLast?_concat

theorem exists_terminated (tokens : List Token) :
    ∃ behind, terminated tokens = Token.body tokens ++ (ofTokens tokens).stop :: behind := by
  cases found : tokens.find? Token.isFinish with
  | none =>
    have inside : ∀ t ∈ tokens, t.isFinish = false := by simpa using found
    have body : Token.body tokens = tokens :=
      List.takeWhile_eq_self_iff.mpr fun t ht => by simp [inside t ht]
    have unended : tokens.getLast?.any Token.isFinish = false := by
      cases last : tokens.getLast? with
      | none => rfl
      | some t => exact inside t (List.mem_of_getLast? last)
    refine ⟨[], ?_⟩
    simp [terminated, unended, ofTokens, found, body]
  | some t =>
    have front : (tokens.dropWhile (!·.isFinish)).head? = some t := by
      rw [← List.find?_eq_head?_dropWhile_not, found]
    obtain ⟨behind, split⟩ := List.head?_eq_some_iff.mp front
    obtain ⟨more, longer⟩ : ∃ more, terminated tokens = tokens ++ more := by
      unfold terminated
      split
      · exact ⟨[], (List.append_nil tokens).symm⟩
      · exact ⟨_, rfl⟩
    refine ⟨behind ++ more, ?_⟩
    have whole : tokens = Token.body tokens ++ t :: behind := by
      rw [← split]
      exact List.takeWhile_append_dropWhile.symm
    have stop : (ofTokens tokens).stop = t := by simp [ofTokens, found]
    rw [longer, stop, ← List.cons_append, ← List.append_assoc, ← whole]

def finishIndex (tokens : List Token) : Nat := (terminated tokens).findIdx Token.isFinish

theorem finishIndex_eq (tokens : List Token) : finishIndex tokens = (Token.body tokens).length := by
  obtain ⟨behind, list⟩ := exists_terminated tokens
  have inside : ∀ t ∈ Token.body tokens, t.isFinish = false := by
    intro t ht
    simpa using List.mem_takeWhile_imp ht
  unfold finishIndex
  rw [list, List.findIdx_append, List.findIdx_eq_length_of_false inside, if_neg (lt_irrefl _),
    List.findIdx_cons, isFinish_stop]
  exact Nat.zero_add _

structure Stands (tokens : List Token) (r : Reader) : Prop where
  list : r.past.reverse ++ r.ahead = Token.body tokens
  stop : r.stop = (ofTokens tokens).stop
  last : r.last = endMarker tokens

theorem stands_ofTokens (tokens : List Token) : Stands tokens (ofTokens tokens) := ⟨rfl, rfl, rfl⟩

theorem Stands.leads (h : Stands tokens r) (leads : Leads r rest) : Stands tokens rest :=
  ⟨leads.list.trans h.list, leads.stop.trans h.stop, leads.last.trans h.last⟩

/-- What the reader can look at is in the list: the place where it stands is not behind the first
end marker, and in front of the first token stands the last one. -/
structure InRange (tokens : List Token) (r : Reader) : Prop where
  bounded : r.index ≤ finishIndex tokens
  peek : (terminated tokens)[r.index]? = some r.peek
  previous :
    (if r.index = 0 then (terminated tokens).getLast? else (terminated tokens)[r.index - 1]?) =
      some r.previous

theorem Stands.inRange (h : Stands tokens r) : InRange tokens r := by
  obtain ⟨behind, list⟩ := exists_terminated tokens
  rw [← h.list, ← h.stop, List.append_assoc] at list
  refine ⟨?_, ?_, ?_⟩
  · rw [finishIndex_eq, ← h.list, List.length_append, List.length_reverse]
    exact Nat.le_add_right _ _
  · have here : r.index = r.past.reverse.length := List.length_reverse.symm
    rw [list, here, List.getElem?_append_right (Nat.le_refl _), Nat.sub_self]
    unfold Reader.peek
    cases r.ahead <;> rfl
  · unfold Reader.previous index
    cases past : r.past with
    | nil =>
      rw [h.last]
      exact getLast?_terminated tokens
    | cons t ts =>
      have before : (terminated tokens)[ts.length]? = some t := by
        rw [list, past]
        simp
      exact before

namespace Sight

def formula? : Sight → Option Formula
  | formula f => some f
  | parsed p => some p.formula
  | _ => none

end Sight

/-- What a move does to a reader: it looks or takes a token, or it reads a phrase. A parse fails at
an end marker and in front of a leftover token too. -/
inductive Performs (r : Reader) : Sight → Reader → Prop
  | looks {sight : Sight} (plain : sight.formula? = none) : Performs r sight r
  | takes {sight : Sight} (plain : sight.formula? = none) : Performs r sight r.advance
  | gives {sight : Sight} {p : Phrase} {f : Formula} {rest : Reader}
      (answer : read (.phrase p) r = (.ok f, rest)) (shown : sight.formula? = some f) :
      Performs r sight rest
  | leaves {p : Phrase} {f : Formula} {rest : Reader} (cause : Fault)
      (answer : read (.phrase p) r = (.ok f, rest)) : Performs r (.fault cause) rest
  | fails {p : Phrase} {cause : Fault} {rest : Reader}
      (answer : read (.phrase p) r = (.error cause, rest)) : Performs r (.fault cause) rest

theorem performs_ofOutcome (p : Phrase) (r : Reader) :
    Performs r (Sight.ofOutcome (read (.phrase p) r)).1 (Sight.ofOutcome (read (.phrase p) r)).2 := by
  cases answer : read (.phrase p) r with
  | mk result rest =>
    cases result with
    | ok f => exact .gives answer rfl
    | error cause => exact .fails answer

theorem performs_parse (r : Reader) :
    Performs r (r.perform .parse).1 (r.perform .parse).2 := by
  rw [perform, parse_eq]
  by_cases empty : r.ahead = []
  · rw [if_pos empty]
    exact .looks rfl
  · rw [if_neg empty]
    cases answer : read (.phrase (.chain .sum)) r with
    | mk result rest =>
      cases result with
      | error cause => exact .fails answer
      | ok f =>
        by_cases ended : rest.ahead = []
        · simp only [if_pos ended]
          exact .gives answer rfl
        · simp only [if_neg ended]
          exact .leaves _ answer

theorem performs (r : Reader) (move : Move) : Performs r (r.perform move).1 (r.perform move).2 := by
  cases move with
  | accept kinds =>
    change Performs r (.flag (r.accept kinds).1) (r.accept kinds).2
    unfold accept
    split
    · exact .takes rfl
    · exact .looks rfl
  | peek => exact .looks rfl
  | previous => exact .looks rfl
  | advance => exact .takes rfl
  | isAtEnd => exact .looks rfl
  | parse => exact performs_parse r
  | tier level => exact performs_ofOutcome (.chain level) r
  | unary => exact performs_ofOutcome .operand r
  | primary => exact performs_ofOutcome .primary r

/-- What one move keeps. A move that gives a formula has met its names, and has numbered its nodes
from the next free number on. -/
structure Keeps (tokens : List Token) (r : Reader) (sight : Sight) (rest : Reader) : Prop where
  forward : r.index ≤ rest.index
  inRange : InRange tokens rest
  deeper : r.depth ≤ rest.depth
  level : (∀ cause, sight ≠ .fault cause) → rest.depth = r.depth
  names : ∀ f ∈ sight.formula?, ∀ x, x ∈ rest.names ↔ x ∈ r.names ∨ x ∈ f.names
  ids : ∀ f ∈ sight.formula?, f.ids = numbersFrom r.nextId f.nodeCount
  nextId : ∀ f ∈ sight.formula?, rest.nextId = r.nextId + f.nodeCount

theorem Performs.leads {sight : Sight} (h : Performs r sight rest) : Leads r rest := by
  cases h with
  | looks => exact .refl r
  | takes => exact leads_advance r
  | gives answer => exact (reads_iff.mpr answer).leads
  | leaves _ answer => exact (reads_iff.mpr answer).leads
  | fails answer => exact (reads_iff.mpr answer).leads

theorem Performs.level {sight : Sight} (h : Performs r sight rest)
    (finish : r.stop.isFinish = true) (success : ∀ cause, sight ≠ .fault cause) :
    rest.depth = r.depth := by
  cases h with
  | looks => rfl
  | takes => exact depth_advance r
  | gives answer =>
    obtain ⟨_, _, took, _⟩ := read_spells finish answer
    exact took.depth
  | leaves cause => exact absurd rfl (success cause)
  | @fails _ cause => exact absurd rfl (success cause)

theorem Performs.answer {sight : Sight} (h : Performs r sight rest)
    (given : sight.formula? = some f) : ∃ p, read (.phrase p) r = (.ok f, rest) := by
  cases h with
  | looks plain | takes plain => cases plain.symm.trans given
  | gives answer shown =>
    cases shown.symm.trans given
    exact ⟨_, answer⟩
  | leaves | fails => cases given

theorem Performs.numbers {sight : Sight} (h : Performs r sight rest)
    (given : sight.formula? = some f) : Numbers r f rest := by
  obtain ⟨p, answer⟩ := h.answer given
  exact (reads_iff.mpr answer).numbers rfl

theorem Performs.met {sight : Sight} (h : Performs r sight rest)
    (finish : r.stop.isFinish = true) (given : sight.formula? = some f) : Met r f rest := by
  obtain ⟨p, answer⟩ := h.answer given
  obtain ⟨_, _, _, met⟩ := read_spells finish answer
  exact met

theorem Performs.keeps {sight : Sight} (h : Performs r sight rest) (stands : Stands tokens r) :
    Keeps tokens r sight rest := by
  have finish : r.stop.isFinish = true := stands.stop ▸ isFinish_stop tokens
  exact {
    forward := h.leads.forward
    inRange := (stands.leads h.leads).inRange
    deeper := h.leads.deeper
    level := h.level finish
    names := fun _ given => (h.met finish given).names
    ids := fun _ given => (h.numbers given).ids
    nextId := fun _ given => (h.numbers given).nextId }

def Along (holds : Reader → Sight → Reader → Prop) (r : Reader) : List (Sight × Reader) → Prop
  | [] => True
  | (sight, rest) :: more => holds r sight rest ∧ Along holds rest more

theorem Stands.along (stands : Stands tokens r) (moves : List Move) :
    Along (Keeps tokens) r (r.performAll moves) := by
  induction moves generalizing r with
  | nil => trivial
  | cons move moves ih =>
    have performed := performs r move
    exact ⟨performed.keeps stands, ih (stands.leads performed.leads)⟩

/-- A reader of any tokens starts inside its list, and every move of every session keeps what is
said above. -/
theorem performAll_keeps (tokens : List Token) (moves : List Move) :
    InRange tokens (ofTokens tokens) ∧
      Along (Keeps tokens) (ofTokens tokens) ((ofTokens tokens).performAll moves) :=
  ⟨(stands_ofTokens tokens).inRange, (stands_ofTokens tokens).along moves⟩

end Reader

end Switching
