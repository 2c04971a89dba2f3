import Switching.Proofs.Scan
import Switching.Text.Layout

/-! How a text is cut into tokens, piece by piece. What a piece gives is judged with the text behind
it present, as a word goes on as long as it can. -/
namespace Switching

def reserved : List String := Gate.all.map Gate.name ++ ["NOT", "TRUE", "FALSE"]

def isNameChar (c : Char) : Bool := c.isUpper || c.isDigit || c == '_'

/-- A name as tokens spell it: a letter in upper case, then such letters, digits and underscores,
and no reserved word. -/
structure IsIdentifier (s : String) : Prop where
  capitalized : Capitalized s
  inside : s.toList.all isNameChar = true
  free : s ∉ reserved

instance : DecidablePred Capitalized := fun s =>
  decidable_of_iff (s.toList.head?.any Char.isUpper = true)
    (by rw [Option.any_eq_true]; exact Iff.rfl)

instance : DecidablePred IsIdentifier := fun s =>
  decidable_of_iff (Capitalized s ∧ s.toList.all isNameChar = true ∧ s ∉ reserved)
    ⟨fun ⟨capitalized, inside, free⟩ => ⟨capitalized, inside, free⟩,
      fun ⟨capitalized, inside, free⟩ => ⟨capitalized, inside, free⟩⟩

section NameChar

variable {c : Char}

theorem toUpper_of_isNameChar (h : isNameChar c = true) : c.toUpper = c := by
  refine Char.toUpper_eq_of_not_isLower ?_
  simp only [isNameChar, Bool.or_eq_true, beq_iff_eq] at h
  rcases h with (upper | digit) | rfl
  · exact Char.not_isLower_of_isUpper upper
  · simp only [Char.isDigit, Char.isLower, Bool.and_eq_true, decide_eq_true_eq] at digit ⊢
    intro lower
    exact absurd (UInt32.le_trans lower.1 digit.2) (by decide)
  · decide

theorem isWordChar_of_isNameChar (h : isNameChar c = true) : isWordChar c = true := by
  simp only [isNameChar, Bool.or_eq_true, beq_iff_eq] at h
  rcases h with (upper | digit) | rfl
  · simp [isWordChar, Char.isAlphanum, Char.isAlpha, upper]
  · simp [isWordChar, Char.isAlphanum, digit]
  · decide

end NameChar

namespace Lexeme

variable {c : Char} {cs back : List Char} {s : String} {kind : TokenKind}

def signs : List Char :=
  ['(', ')', '&', '∧', '*', '|', '∨', '+', '~', '!', '¬', '\'', '^', '⊕', '↑', '↓', '⊙', '↔']

theorem word_of_stops (inside : ∀ c ∈ cs, isWordChar c = true)
    (stops : ∀ b ∈ back.head?, isWordChar b = false) :
    word c (cs ++ back) =
      if isLongFalse (String.ofList ((c :: cs).map Char.toUpper)) back then
        .token .constant "0" (cs.length + 2)
      else
        match keyword? (String.ofList ((c :: cs).map Char.toUpper)) with
        | some (kind, text?) =>
          if endsKeyword back then .token kind (text?.getD (String.ofList (c :: cs))) cs.length
          else .token .name (String.ofList ((c :: cs).map Char.toUpper)) cs.length
        | none => .token .name (String.ofList ((c :: cs).map Char.toUpper)) cs.length := by
  have tail : (cs ++ back).takeWhile isWordChar = cs := by
    rw [List.takeWhile_append_of_pos inside]
    cases back with
    | nil => simp
    | cons b bs => simp [stops b rfl]
  have rest : (cs ++ back).dropWhile isWordChar = back := by
    rw [List.dropWhile_append_of_pos inside]
    cases back with
    | nil => rfl
    | cons b bs => simp [stops b rfl]
  unfold word
  generalize (cs ++ back).takeWhile isWordChar = front at tail ⊢
  generalize (cs ++ back).dropWhile isWordChar = behind at rest ⊢
  subst tail rest
  rfl

theorem word_append (inside : ∀ c ∈ cs, isWordChar c = true) (ended : endsKeyword back = true) :
    word c (cs ++ back) =
      match keyword? (String.ofList ((c :: cs).map Char.toUpper)) with
      | some (kind, text?) => .token kind (text?.getD (String.ofList (c :: cs))) cs.length
      | none => .token .name (String.ofList ((c :: cs).map Char.toUpper)) cs.length := by
  have stops : ∀ b ∈ back.head?, isWordChar b = false ∧ foldsToLetter b = false := by
    cases back with
    | nil => simp
    | cons b bs => simpa [endsKeyword] using ended
  have short : isLongFalse (String.ofList ((c :: cs).map Char.toUpper)) back = false := by
    unfold isLongFalse
    split
    · rename_i b e bs
      have plain : (b == '\u017f') = false := by
        have foldless := (stops b rfl).2
        simp only [foldsToLetter, Bool.or_eq_false_iff] at foldless
        exact foldless.1.2
      simp [plain]
    · rfl
  rw [word_of_stops inside fun b hb => (stops b hb).1, short, ended]
  rfl

theorem keyword?_eq_none (free : s ∉ reserved) : keyword? s = none := by
  rw [reserved, List.mem_append] at free
  obtain ⟨gates, others⟩ := not_or.mp free
  have none : Gate.all.find? (·.name == s) = none := by
    refine List.find?_eq_none.mpr fun k hk same => gates ?_
    exact List.mem_map.mpr ⟨k, hk, eq_of_beq same⟩
  simp only [List.mem_cons, List.not_mem_nil, or_false, not_or] at others
  obtain ⟨negation, one, zero⟩ := others
  simp [keyword?, none, negation, one, zero]

theorem keyword?_gate (k : Gate) : keyword? k.name = some (.gate k, none) := by
  cases k <;> rfl

theorem isBlank_of_isAlpha (letter : c.isAlpha = true) : isBlank c = false := by
  simp only [Char.isAlpha, Char.isUpper, Char.isLower, Bool.or_eq_true, Bool.and_eq_true,
    decide_eq_true_eq, ge_iff_le, UInt32.le_iff_toNat_le] at letter
  change (65 ≤ c.toNat ∧ c.toNat ≤ 90) ∨ (97 ≤ c.toNat ∧ c.toNat ≤ 122) at letter
  simp [isBlank, CharClass.contains, CharClass.blank]
  omega

theorem mem_signs (sign : sign? c = some kind) : c ∈ signs := by
  by_contra other
  simp only [signs, List.mem_cons, List.not_mem_nil, or_false, not_or] at other
  simp [sign?, other] at sign

theorem plain_of_mem_signs :
    ∀ c ∈ signs, isBlank c = false ∧ c.isAlpha = false ∧ ¬(c = '0' ∨ c = '1') ∧ c ≠ '.' := by
  intro c hc
  fin_cases hc <;> decide

theorem front?_of_sign? (sign : sign? c = some kind) (cs : List Char) :
    front? c cs = some (.token kind c.toString 0) := by
  obtain ⟨blank, letter, digit, point⟩ := plain_of_mem_signs c (mem_signs sign)
  simp [front?, blank, letter, digit, point, sign]

theorem front?_of_isAlpha (letter : c.isAlpha = true) (cs : List Char) :
    front? c cs = some (word c cs) := by
  rw [front?, isBlank_of_isAlpha letter, if_neg Bool.false_ne_true, if_pos letter]

end Lexeme

namespace Token

variable {c : Char} {cs ds back : List Char} {ts us : List Token} {position : Nat} {s : String}
  {kind : TokenKind}

/-- With the text `back` behind it, the text at the given place is cut into these tokens. -/
def Cuts (position : Nat) (cs : List Char) (ts : List Token) (back : List Char) : Prop :=
  scanFrom position (cs ++ back) = (scanFrom (position + cs.length) back).map (ts ++ ·)

theorem cuts_nil (position : Nat) (back : List Char) : Cuts position [] [] back := by
  rw [Cuts, List.nil_append, List.length_nil, Nat.add_zero]
  cases scanFrom position back <;> rfl

theorem Cuts.append (first : Cuts position cs ts (ds ++ back))
    (second : Cuts (position + cs.length) ds us back) :
    Cuts position (cs ++ ds) (ts ++ us) back := by
  rw [Cuts, List.append_assoc, first, second, List.length_append, Nat.add_assoc]
  cases scanFrom (position + (cs.length + ds.length)) back with
  | error f => rfl
  | ok vs => exact congrArg Except.ok (List.append_assoc ts us vs).symm

theorem Cuts.scanFrom_eq (h : Cuts position cs ts []) :
    scanFrom position cs = .ok (ts ++ [.finish (position + cs.length)]) := by
  rw [Cuts, List.append_nil, scanFrom] at h
  exact h

theorem cuts_of_front? {lexeme : Lexeme} (front : Lexeme.front? c (cs ++ back) = some lexeme)
    (extra : lexeme.extra = cs.length) :
    Cuts position (c :: cs) (lexeme.toTokens position) back := by
  rw [Cuts, List.cons_append, scanFrom, front]
  simp only [extra, List.drop_left, List.length_cons, Nat.add_assoc]
  cases scanFrom (position + (cs.length + 1)) back <;> rfl

theorem cuts_blank (position : Nat) (back : List Char) : Cuts position [' '] [] back := by
  have front : Lexeme.front? ' ' ([] ++ back) = some .blank := rfl
  exact cuts_of_front? front rfl

theorem cuts_sign (sign : Lexeme.sign? c = some kind) (position : Nat) (back : List Char) :
    Cuts position [c] [⟨kind, c.toString, position, 1⟩] back := by
  have front : Lexeme.front? c ([] ++ back) = some (.token kind c.toString 0) :=
    Lexeme.front?_of_sign? sign back
  exact cuts_of_front? front rfl

theorem cuts_bit (b : Bool) (position : Nat) (ended : endsKeyword back = true) :
    Cuts position (bitText b).toList [⟨.constant, bitText b, position, 1⟩] back := by
  have stops : (back.head?.map isWordChar).getD false = false := by
    cases back with
    | nil => rfl
    | cons d ds => simp_all [endsKeyword]
  cases b with
  | false =>
    have front : Lexeme.front? '0' ([] ++ back) = some (.token .constant "0" 0) := by
      simp only [Lexeme.front?, List.nil_append, stops]
      rfl
    exact cuts_of_front? front rfl
  | true =>
    have front : Lexeme.front? '1' ([] ++ back) = some (.token .constant "1" 0) := by
      simp only [Lexeme.front?, List.nil_append, stops]
      rfl
    exact cuts_of_front? front rfl

theorem cuts_word (capitalized : Capitalized s) (inside : s.toList.all isNameChar = true)
    (found : (Lexeme.keyword? s).getD (.name, none) = (kind, none))
    (ended : endsKeyword back = true) (position : Nat) :
    Cuts position s.toList [⟨kind, s, position, s.length⟩] back := by
  obtain ⟨c, head, upper⟩ := capitalized
  obtain ⟨cs, spelled⟩ := List.head?_eq_some_iff.mp head
  rw [spelled, List.all_eq_true] at inside
  have same : (c :: cs).map Char.toUpper = c :: cs :=
    List.map_congr_left (fun d hd => toUpper_of_isNameChar (inside d hd)) |>.trans (List.map_id _)
  have whole : String.ofList (c :: cs) = s := by rw [← spelled, String.ofList_toList]
  have word : Lexeme.word c (cs ++ back) = .token kind s cs.length := by
    have words : ∀ d ∈ cs, isWordChar d = true :=
      fun d hd => isWordChar_of_isNameChar (inside d (List.mem_cons_of_mem c hd))
    rw [Lexeme.word_append words ended, same, whole]
    cases known : Lexeme.keyword? s with
    | none =>
      rw [known] at found
      cases found
      rfl
    | some entry =>
      rw [known] at found
      cases found
      rfl
  have front : Lexeme.front? c (cs ++ back) = some (.token kind s cs.length) := by
    have letter : c.isAlpha = true := by rw [Char.isAlpha, upper, Bool.true_or]
    rw [Lexeme.front?_of_isAlpha letter, word]
  have length : s.length = cs.length + 1 := by
    rw [← String.length_toList, spelled, List.length_cons]
  rw [spelled, length]
  exact cuts_of_front? front rfl

theorem cuts_identifier (name : IsIdentifier s) (ended : endsKeyword back = true)
    (position : Nat) : Cuts position s.toList [⟨.name, s, position, s.length⟩] back :=
  cuts_word name.capitalized name.inside (by rw [Lexeme.keyword?_eq_none name.free]; rfl) ended
    position

end Token

end Switching
