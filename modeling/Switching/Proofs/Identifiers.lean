import Switching.Proofs.Grammar.Soundness
import Switching.Proofs.Lexemes

/-! The names of an accepted text are identifiers. A reserved word is taken for a name only in front
of a letter that folds to one of ASCII, and no token begins with such a letter, so a text with a
reserved word for a name is refused behind it. -/
namespace Switching

theorem isNameChar_toUpper {c : Char} (h : isWordChar c = true) : isNameChar c.toUpper = true := by
  unfold isWordChar at h
  rw [Char.isAlphanum, Bool.or_eq_true, Bool.or_eq_true, beq_iff_eq] at h
  rcases h with (letter | digit) | rfl
  · simp [isNameChar, Char.isUpper_toUpper_eq_isAlpha, letter]
  · have name : isNameChar c = true := by simp [isNameChar, digit]
    rw [toUpper_of_isNameChar name]
    exact name
  · decide

namespace Lexeme

variable {c : Char} {cs tail back : List Char} {w text : String} {extra : Nat}

theorem not_mem_reserved (unknown : keyword? w = none) : w ∉ reserved := by
  intro listed
  rw [reserved, List.mem_append, List.mem_map] at listed
  rcases listed with ⟨k, _, rfl⟩ | listed
  · rw [keyword?_gate] at unknown
    cases unknown
  · simp only [List.mem_cons, List.not_mem_nil, or_false] at listed
    rcases listed with rfl | rfl | rfl <;> cases unknown

theorem front?_of_foldsToLetter (folds : foldsToLetter c = true) (cs : List Char) :
    front? c cs = none := by
  simp only [foldsToLetter, Bool.or_eq_true, beq_iff_eq] at folds
  rcases folds with ((rfl | rfl) | rfl) | rfl <;> rfl

theorem isIdentifier_upper (letter : c.isAlpha = true) (inside : ∀ d ∈ tail, isWordChar d = true)
    (unknown : keyword? (String.ofList ((c :: tail).map Char.toUpper)) = none) :
    IsIdentifier (String.ofList ((c :: tail).map Char.toUpper)) where
  capitalized := ⟨c.toUpper, by simp, by rw [Char.isUpper_toUpper_eq_isAlpha, letter]⟩
  inside := by
    have first : isWordChar c = true := by simp [isWordChar, Char.isAlphanum, letter]
    rw [String.toList_ofList, List.all_map, List.all_eq_true]
    intro d hd
    rcases List.mem_cons.mp hd with rfl | hd
    · exact isNameChar_toUpper first
    · exact isNameChar_toUpper (inside d hd)
  free := not_mem_reserved unknown

/-- A word that is read as a name is an identifier, or a letter that begins no token stands behind
it. -/
theorem word_name (letter : c.isAlpha = true) (same : word c cs = .token .name text extra) :
    IsIdentifier text ∨ ∃ b rest, cs.drop extra = b :: rest ∧ foldsToLetter b = true := by
  obtain ⟨tail, back, rfl, inside, stops⟩ := exists_word_split cs
  rw [word_of_stops inside stops] at same
  split at same
  · cases same
  · split at same
    · rename_i known
      split at same
      · cases same
        exact absurd rfl (ne_name_of_keyword? known)
      · rename_i goes
        cases same
        right
        rw [List.drop_left]
        cases back with
        | nil => exact absurd rfl goes
        | cons b rest =>
          refine ⟨b, rest, rfl, ?_⟩
          have plain : isWordChar b = false := stops b rfl
          simpa [endsKeyword, plain] using goes
    · rename_i unknown
      cases same
      exact .inl (isIdentifier_upper letter inside unknown)

theorem Begins.name {lexeme : Lexeme} (h : Begins c cs lexeme)
    (name : lexeme = .token .name text extra) :
    IsIdentifier text ∨ ∃ b rest, cs.drop extra = b :: rest ∧ foldsToLetter b = true := by
  cases h with
  | word letter => exact word_name letter name
  | sign sign =>
    cases name
    exact absurd rfl (ne_name_of_sign? sign)
  | blank | digit | point => cases name

end Lexeme

namespace Token

theorem isIdentifier_of_scan {text : String} {ts : List Token} (h : scan text = .ok ts) :
    ∀ t ∈ ts, t.kind = .name → IsIdentifier t.text := by
  apply names_of_scanFrom (p := IsIdentifier) _ h
  intro c cs text extra position ts begins scanned
  rcases begins.name rfl with name | ⟨b, rest, behind, folds⟩
  · exact name
  · -- the scan would have failed at the letter behind the word
    rw [behind, scanFrom, Lexeme.front?_of_foldsToLetter folds] at scanned
    cases scanned

end Token

namespace Formula

variable {text : String} {p : Parsed}

theorem exists_scan (accepted : ofText text = .ok p) :
    ∃ tokens, Token.scan text = .ok tokens ∧ ofTokens tokens = .ok p := by
  unfold ofText at accepted
  cases scanned : Token.scan text with
  | error cause =>
    rw [scanned] at accepted
    cases accepted
  | ok tokens =>
    rw [scanned] at accepted
    exact ⟨tokens, rfl, accepted⟩

theorem names_of_ofText (accepted : ofText text = .ok p) : p.names = p.formula.names := by
  obtain ⟨tokens, _, parsed⟩ := exists_scan accepted
  exact (derives_of_ofTokens parsed).2

theorem isIdentifier_of_ofText (accepted : ofText text = .ok p) :
    ∀ x ∈ p.formula.names, IsIdentifier x := by
  obtain ⟨tokens, scanned, parsed⟩ := exists_scan accepted
  have derived := (derives_of_ofTokens parsed).1
  intro x hx
  obtain ⟨t, ht, kind, rfl⟩ := (derived.mem_names x).mp (mem_names_shape.mpr hx)
  apply Token.isIdentifier_of_scan scanned t _ kind
  exact (List.takeWhile_prefix _).subset ht

end Formula

end Switching
