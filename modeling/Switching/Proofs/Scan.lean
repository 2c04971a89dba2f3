import Mathlib
import Switching.Token.Scan

/-! What is known of the tokens of a text. A name begins with a letter, in upper case, so that no
name is the spelling of a number. -/
namespace Switching

def Lettered (s : String) : Prop := ∃ c ∈ s.toList.head?, c.isAlpha = true

instance : DecidablePred Lettered := fun s =>
  decidable_of_iff (s.toList.head?.any Char.isAlpha = true)
    (by rw [Option.any_eq_true]; exact Iff.rfl)

def Capitalized (s : String) : Prop := ∃ c ∈ s.toList.head?, c.isUpper = true

theorem Capitalized.lettered {s : String} (h : Capitalized s) : Lettered s := by
  obtain ⟨c, head, upper⟩ := h
  exact ⟨c, head, by rw [Char.isAlpha, upper, Bool.true_or]⟩

namespace Lexeme

variable {c : Char} {cs : List Char} {lexeme : Lexeme} {kind : TokenKind} {text : String}
  {text? : Option String} {extra : Nat}

theorem of_keyword? (h : keyword? text = some (kind, text?)) :
    (kind = .negation ∨ ∃ g, kind = .gate g) ∧ text? = none ∨
      kind = .constant ∧
        (text? = some "1" ∧ text = "TRUE" ∨ text? = some "0" ∧ text = "FALSE") := by
  unfold keyword? at h
  split at h
  · cases h
    exact .inl ⟨.inr ⟨_, rfl⟩, rfl⟩
  · split at h
    · cases h
      exact .inl ⟨.inl rfl, rfl⟩
    · split at h
      · rename_i one
        cases h
        exact .inr ⟨rfl, .inl ⟨rfl, eq_of_beq one⟩⟩
      · split at h
        · rename_i zero
          cases h
          exact .inr ⟨rfl, .inr ⟨rfl, eq_of_beq zero⟩⟩
        · cases h

theorem ne_name_of_keyword? (h : keyword? text = some (kind, text?)) : kind ≠ .name := by
  rintro rfl
  rcases of_keyword? h with ⟨none | ⟨_, none⟩, _⟩ | ⟨none, _⟩ <;> cases none

theorem of_sign? (h : sign? c = some kind) :
    kind = .opening ∨ kind = .closing ∨ kind = .negation ∨ ∃ g, kind = .gate g := by
  unfold sign? at h
  repeat' split at h
  all_goals cases h
  all_goals simp

theorem ne_name_of_sign? (h : sign? c = some kind) : kind ≠ .name := by
  rintro rfl
  rcases of_sign? h with none | none | none | ⟨_, none⟩ <;> cases none

theorem capitalized_word (letter : c.isAlpha = true)
    (h : word c cs = .token .name text extra) : Capitalized text := by
  have capital : Capitalized (String.ofList ((c :: cs.takeWhile isWordChar).map Char.toUpper)) :=
    ⟨c.toUpper, by simp, by rw [Char.isUpper_toUpper_eq_isAlpha, letter]⟩
  unfold word at h
  simp only at h
  split at h
  · cases h
  · split at h
    · rename_i kind text? found
      split at h
      · cases h
        exact absurd rfl (ne_name_of_keyword? found)
      · cases h
        exact capital
    · cases h
      exact capital

inductive Begins (c : Char) (cs : List Char) : Lexeme → Prop
  | blank (separates : isBlank c = true) : Begins c cs .blank
  | word (letter : c.isAlpha = true) : Begins c cs (word c cs)
  | digit (bit : c = '0' ∨ c = '1') (alone : ∀ b ∈ cs.head?, isWordChar b = false) :
      Begins c cs (.token .constant c.toString 0)
  | point (point : c = '.') (alone : ∀ b ∈ cs.head?, b.isDigit = false) :
      Begins c cs (.token (.gate .and) "." 0)
  | sign {kind : TokenKind} (sign : sign? c = some kind) : Begins c cs (.token kind c.toString 0)

theorem alone_iff (p : Char → Bool) (cs : List Char) :
    (cs.head?.map p).getD false = false ↔ ∀ b ∈ cs.head?, p b = false := by
  cases cs <;> simp

theorem begins_of_front? (h : front? c cs = some lexeme) : Begins c cs lexeme := by
  unfold front? at h
  split at h
  · cases h
    exact .blank ‹_›
  · split at h
    · cases h
      exact .word ‹_›
    · split at h
      · rename_i bit
        split at h
        · cases h
        · rename_i alone
          cases h
          exact .digit (by simpa using bit) ((alone_iff _ _).mp (Bool.eq_false_iff.mpr alone))
      · split at h
        · rename_i point
          split at h
          · cases h
          · rename_i alone
            cases h
            exact .point point ((alone_iff _ _).mp (Bool.eq_false_iff.mpr alone))
        · obtain ⟨kind, sign, rfl⟩ := Option.map_eq_some_iff.mp h
          exact .sign sign

theorem Begins.capitalized (h : Begins c cs lexeme) (name : lexeme = .token .name text extra) :
    Capitalized text := by
  cases h with
  | word letter => exact capitalized_word letter name
  | sign sign =>
    cases name
    exact absurd rfl (ne_name_of_sign? sign)
  | blank | digit | point => cases name

end Lexeme

namespace Token

/-- What holds of a name wherever one begins and the text behind it is scanned holds of every name
token of a text. -/
theorem names_of_scanFrom {p : String → Prop} {position : Nat} {cs : List Char} {ts : List Token}
    (step : ∀ c cs text extra position ts,
      Lexeme.Begins c cs (.token .name text extra) → scanFrom position (cs.drop extra) = .ok ts →
        p text)
    (h : scanFrom position cs = .ok ts) : ∀ t ∈ ts, t.kind = .name → p t.text := by
  fun_induction scanFrom position cs generalizing ts with
  | case1 position =>
    cases h
    intro t ht kind
    cases List.mem_singleton.mp ht
    cases kind
  | case2 => cases h
  | case3 => cases h
  | case4 position c cs lexeme front rest found ih =>
    cases h
    intro t ht kind
    rcases List.mem_append.mp ht with ht | ht
    · cases lexeme with
      | blank => cases ht
      | token kind' text extra =>
        cases List.mem_singleton.mp ht
        cases kind
        exact step c cs text extra _ rest (Lexeme.begins_of_front? front) found
    · exact ih found t ht kind

theorem capitalized_of_scan {text : String} {ts : List Token} (h : scan text = .ok ts) :
    ∀ t ∈ ts, t.kind = .name → Capitalized t.text :=
  names_of_scanFrom (fun _ _ _ _ _ _ begins _ => begins.capitalized rfl) h

end Token

end Switching
