import Switching.Proofs.Cutting

/-! What a lexeme takes from the front of a text. It is spelled by the characters that it takes, and
it takes as many of them where the text is cut off behind it. -/
namespace Switching

namespace Token

def Spelled (kind : TokenKind) (text : String) (cs : List Char) : Prop :=
  match kind with
  | .name => text = String.ofList (cs.map Char.toUpper)
  | .constant =>
    text = "1" ∧ String.ofList (cs.map Char.toUpper) ∈ ["1", "TRUE"] ∨
      text = "0" ∧ String.ofList (cs.map Char.toUpper) ∈ ["0", "FALSE", "FAL\u017fE"]
  | _ => text = String.ofList cs

def span (t : Token) : Nat × Nat := (t.position, t.length)

theorem spelled_of_operator {kind : TokenKind} (operator : kind = .negation ∨ ∃ g, kind = .gate g)
    (cs : List Char) : Spelled kind (String.ofList cs) cs := by
  rcases operator with rfl | ⟨g, rfl⟩ <;> rfl

end Token

namespace Lexeme

open Token

variable {c : Char} {cs back taken done rest : List Char} {lexeme : Lexeme} {kind : TokenKind}
  {text w : String} {extra : Nat}

theorem begins_iff : front? c cs = some lexeme ↔ Begins c cs lexeme := by
  constructor
  · exact begins_of_front?
  · intro h
    cases h with
    | blank separates => rw [front?, if_pos separates]
    | word letter => exact front?_of_isAlpha letter cs
    | digit bit alone =>
      have stops := (alone_iff _ _).mpr alone
      rcases bit with rfl | rfl
      · simp only [front?, stops]
        rfl
      · simp only [front?, stops]
        rfl
    | point point alone =>
      subst point
      simp only [front?, (alone_iff _ _).mpr alone]
      rfl
    | sign sign => exact front?_of_sign? sign cs

theorem exists_word_split (cs : List Char) :
    ∃ tail back, cs = tail ++ back ∧ (∀ d ∈ tail, isWordChar d = true) ∧
      ∀ b ∈ back.head?, isWordChar b = false := by
  refine ⟨cs.takeWhile isWordChar, cs.dropWhile isWordChar,
    (List.takeWhile_append_dropWhile).symm, fun d hd => List.mem_takeWhile_imp hd, ?_⟩
  intro b hb
  have stops := List.head?_dropWhile_not isWordChar cs
  rw [Option.mem_def.mp hb] at stops
  exact stops

theorem of_isLongFalse (h : isLongFalse w back = true) :
    ∃ e rest, back = '\u017f' :: e :: rest ∧ w = "FAL" ∧ e.toUpper = 'E' ∧
      endsKeyword rest = true := by
  unfold isLongFalse at h
  split at h
  · rename_i s e rest
    simp only [Bool.and_eq_true, beq_iff_eq] at h
    obtain ⟨⟨⟨word, long⟩, upper⟩, ended⟩ := h
    exact ⟨e, rest, by rw [long], word, upper, ended⟩
  · cases h

theorem word_spelled (same : word c cs = .token kind text extra) :
    extra ≤ cs.length ∧ kind ≠ .finish ∧ Spelled kind text (c :: cs.take extra) := by
  obtain ⟨tail, back, rfl, inside, stops⟩ := exists_word_split cs
  rw [word_of_stops inside stops] at same
  split at same
  · rename_i long
    obtain ⟨e, rest, rfl, word, upper, _⟩ := of_isLongFalse long
    cases same
    refine ⟨by simp, by decide, .inr ⟨rfl, ?_⟩⟩
    have letters : (c :: tail).map Char.toUpper = ['F', 'A', 'L'] := by
      rw [← String.toList_ofList (l := (c :: tail).map Char.toUpper), word]
      rfl
    have taken : (tail ++ '\u017f' :: e :: rest).take (tail.length + 2) = tail ++ ['\u017f', e] := by
      rw [List.take_length_add_append]
      rfl
    have long : '\u017f'.toUpper = '\u017f' := by decide
    rw [taken, ← List.cons_append, List.map_append, letters, List.map_cons, long, List.map_cons,
      upper]
    decide
  · have taken : (tail ++ back).take tail.length = tail := List.take_left
    split at same
    · rename_i known
      split at same
      · cases same
        rw [taken]
        rcases of_keyword? known with ⟨operator, rfl⟩ | ⟨rfl, ⟨rfl, word⟩ | ⟨rfl, word⟩⟩
        · refine ⟨by simp, ?_, spelled_of_operator operator _⟩
          rcases operator with rfl | ⟨g, rfl⟩ <;> exact fun same => nomatch same
        · exact ⟨by simp, by decide, .inl ⟨rfl, by rw [word]; decide⟩⟩
        · exact ⟨by simp, by decide, .inr ⟨rfl, by rw [word]; decide⟩⟩
      · cases same
        rw [taken]
        exact ⟨by simp, by decide, rfl⟩
    · cases same
      rw [taken]
      exact ⟨by simp, by decide, rfl⟩

theorem word_ne_blank : word c cs ≠ .blank := by
  intro blank
  unfold word at blank
  simp only at blank
  split at blank
  · cases blank
  · split at blank
    · split at blank <;> cases blank
    · cases blank

theorem Begins.separates (h : Begins c cs lexeme) (blank : lexeme = .blank) :
    isBlank c = true := by
  cases h with
  | blank separates => exact separates
  | word letter => exact absurd blank word_ne_blank
  | digit | point | sign => cases blank

theorem Begins.spelled (h : Begins c cs lexeme) (token : lexeme = .token kind text extra) :
    extra ≤ cs.length ∧ kind ≠ .finish ∧ Spelled kind text (c :: cs.take extra) := by
  cases h with
  | blank separates => cases token
  | word letter => exact word_spelled token
  | digit bit alone =>
    cases token
    refine ⟨Nat.zero_le _, by decide, ?_⟩
    rcases bit with rfl | rfl
    · exact .inr ⟨rfl, by rw [List.take_zero]; decide⟩
    · exact .inl ⟨rfl, by rw [List.take_zero]; decide⟩
  | point point alone =>
    cases token
    subst point
    exact ⟨Nat.zero_le _, by simp, rfl⟩
  | sign sign =>
    cases token
    rcases of_sign? sign with rfl | rfl | rfl | ⟨g, rfl⟩ <;>
      exact ⟨Nat.zero_le _, by simp, rfl⟩

theorem Begins.extra_le (h : Begins c cs lexeme) : lexeme.extra ≤ cs.length := by
  cases shown : lexeme with
  | blank => exact Nat.zero_le _
  | token kind text extra => exact (h.spelled shown).1

theorem endsKeyword_of_append (ended : endsKeyword (done ++ rest) = true) :
    endsKeyword done = true := by
  cases done with
  | nil => rfl
  | cons d ds => exact ended

theorem head?_of_append {p : Char → Prop} (every : ∀ b ∈ (done ++ rest).head?, p b) :
    ∀ b ∈ done.head?, p b := by
  cases done with
  | nil => exact fun b none => nomatch none
  | cons d ds => exact every

theorem isLongFalse_of_head? {w : String} (plain : ∀ b ∈ done.head?, b ≠ '\u017f') :
    isLongFalse w done = false := by
  by_contra long
  obtain ⟨e, rest, rfl, _⟩ := of_isLongFalse (Bool.not_eq_false _ ▸ long)
  exact plain _ rfl rfl

theorem word_of_short (inside : ∀ b ∈ taken, isWordChar b = true)
    (stops : ∀ b ∈ done.head?, isWordChar b = false)
    (short : isLongFalse (String.ofList ((c :: taken).map Char.toUpper)) done = false) :
    ∃ kind text, word c (taken ++ done) = .token kind text taken.length := by
  rw [word_of_stops inside stops, short, if_neg Bool.false_ne_true]
  split
  · split
    · exact ⟨_, _, rfl⟩
    · exact ⟨_, _, rfl⟩
  · exact ⟨_, _, rfl⟩

theorem word_cut (length : taken.length = (word c (taken ++ (done ++ rest))).extra)
    (plain : ∀ b ∈ done.head?, b ≠ '\u017f') :
    ∃ kind text, word c (taken ++ done) = .token kind text taken.length := by
  obtain ⟨tail, back, split, inside, stops⟩ := exists_word_split (taken ++ (done ++ rest))
  cases long : isLongFalse (String.ofList ((c :: tail).map Char.toUpper)) back with
  | false =>
    obtain ⟨kind, text, same⟩ := word_of_short (c := c) inside stops long
    rw [split, same] at length
    obtain ⟨rfl, rfl⟩ := List.append_inj split length
    exact word_of_short inside (head?_of_append stops) (isLongFalse_of_head? plain)
  | true =>
    obtain ⟨e, ending, rfl, word, upper, ended⟩ := of_isLongFalse long
    rw [split, word_of_stops inside stops, long, if_pos rfl] at length
    have resplit : taken ++ (done ++ rest) = (tail ++ ['\u017f', e]) ++ ending := by
      rw [split, List.append_assoc]
      rfl
    have lengths : taken.length = (tail ++ ['\u017f', e]).length := by
      rw [length, List.length_append]
      rfl
    obtain ⟨rfl, rfl⟩ := List.append_inj resplit lengths
    have still : isLongFalse (String.ofList ((c :: tail).map Char.toUpper))
        ('\u017f' :: e :: done) = true := by
      simp only [isLongFalse, word, upper, endsKeyword_of_append ended]
      rfl
    have stops' : ∀ b ∈ ('\u017f' :: e :: done).head?, isWordChar b = false := stops
    refine ⟨.constant, "0", ?_⟩
    rw [List.append_assoc, List.length_append]
    apply (word_of_stops inside stops').trans
    rw [still, if_pos rfl]
    rfl

/-- Cut off behind it, a lexeme is still one, of the same length. Its kind may change: a reserved
word is recognised only if nothing behind it folds to a letter. -/
theorem Begins.cut (h : Begins c (taken ++ (done ++ rest)) lexeme)
    (length : taken.length = lexeme.extra) (plain : ∀ b ∈ done.head?, b ≠ '\u017f') :
    ∃ lexeme', Begins c (taken ++ done) lexeme' ∧ lexeme'.extra = lexeme.extra ∧
      ∀ position, (lexeme'.toTokens position).map span = (lexeme.toTokens position).map span := by
  cases h with
  | blank separates => exact ⟨_, .blank separates, rfl, fun _ => rfl⟩
  | word letter =>
    obtain ⟨kind, text, same⟩ := word_cut length plain
    cases whole : Lexeme.word c (taken ++ (done ++ rest)) with
    | blank => exact absurd whole word_ne_blank
    | token kind' text' extra =>
      rw [whole] at length
      obtain rfl : taken.length = extra := length
      refine ⟨_, .word letter, ?_, ?_⟩
      · rw [same]
        rfl
      · intro position
        rw [same]
        rfl
  | digit bit alone =>
    obtain rfl := List.eq_nil_of_length_eq_zero length
    exact ⟨_, .digit bit (head?_of_append alone), rfl, fun _ => rfl⟩
  | point point alone =>
    obtain rfl := List.eq_nil_of_length_eq_zero length
    exact ⟨_, .point point (head?_of_append alone), rfl, fun _ => rfl⟩
  | sign sign => exact ⟨_, .sign sign, rfl, fun _ => rfl⟩

example : front? 'o' ['r', '\u0130'] = some (.token .name "OR" 1) ∧
    front? 'o' ['r'] = some (.token (.gate .or) "or" 1) := by decide

end Lexeme

end Switching
