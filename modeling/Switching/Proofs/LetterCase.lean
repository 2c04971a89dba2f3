import Switching.Proofs.Respelling

/-! Letter case does not matter. A text in upper case is cut as the text itself is, and its tokens
are the same but for the letter case of the operators that are words. A reader does not see those, so
texts that differ in letter case only stand for one expression, or are refused at one place. -/
namespace Switching

def upper (s : String) : String := String.ofList (s.toList.map Char.toUpper)

theorem upper_ofList (cs : List Char) :
    upper (String.ofList cs) = String.ofList (cs.map Char.toUpper) := by
  rw [upper, String.toList_ofList]

theorem map_toUpper_toUpper (cs : List Char) :
    (cs.map Char.toUpper).map Char.toUpper = cs.map Char.toUpper := by
  rw [List.map_map]
  exact List.map_congr_left fun c _ => Char.toUpper_toUpper_eq_toUpper c

theorem upper_upper (cs : List Char) :
    upper (String.ofList (cs.map Char.toUpper)) = String.ofList (cs.map Char.toUpper) := by
  rw [upper_ofList, map_toUpper_toUpper]

theorem upper_bitText (b : Bool) : upper (bitText b) = bitText b := by
  cases b <;> decide

section Letters

variable {c : Char}

theorem toUpper_of_not_isAlpha (other : c.isAlpha = false) : c.toUpper = c := by
  apply Char.toUpper_eq_of_not_isLower
  intro lower
  rw [Char.isAlpha, lower, Bool.or_true] at other
  cases other

theorem upper_toString (other : c.isAlpha = false) : upper c.toString = c.toString := by
  rw [Char.toString_eq_singleton, upper, String.toList_singleton, List.map_singleton,
    toUpper_of_not_isAlpha other]
  rfl

theorem isAlpha_toUpper (c : Char) : c.toUpper.isAlpha = c.isAlpha := by
  cases letter : c.isAlpha with
  | false => rw [toUpper_of_not_isAlpha letter, letter]
  | true => rw [Char.isAlpha, Char.isUpper_toUpper_eq_isAlpha, letter, Bool.true_or]

theorem toUpper_congr {p : Char → Bool} {value : Bool}
    (letters : ∀ c, c.isAlpha = true → p c = value) (c : Char) : p c.toUpper = p c := by
  cases letter : c.isAlpha with
  | false => rw [toUpper_of_not_isAlpha letter]
  | true => rw [letters c letter, letters _ ((isAlpha_toUpper c).trans letter)]

theorem isWordChar_of_isAlpha (letter : c.isAlpha = true) : isWordChar c = true := by
  simp [isWordChar, Char.isAlphanum, letter]

theorem isDigit_of_isAlpha (letter : c.isAlpha = true) : c.isDigit = false := by
  by_contra digit
  rw [Bool.not_eq_false, Char.isDigit_iff_toNat] at digit
  simp only [Char.isAlpha, Char.isUpper, Char.isLower, Bool.or_eq_true, Bool.and_eq_true,
    decide_eq_true_eq, ge_iff_le, UInt32.le_iff_toNat_le] at letter
  change (65 ≤ c.toNat ∧ c.toNat ≤ 90) ∨ (97 ≤ c.toNat ∧ c.toNat ≤ 122) at letter
  change 48 ≤ c.toNat ∧ c.toNat ≤ 57 at digit
  omega

theorem foldsToLetter_of_isAlpha (letter : c.isAlpha = true) : foldsToLetter c = false := by
  by_contra folds
  simp only [Bool.not_eq_false, foldsToLetter, Bool.or_eq_true, beq_iff_eq] at folds
  rcases folds with ((rfl | rfl) | rfl) | rfl <;> cases letter

end Letters

namespace Lexeme

def upper : Lexeme → Lexeme
  | blank => blank
  | token kind text extra => token kind (Switching.upper text) extra

theorem endsKeyword_upper (cs : List Char) :
    endsKeyword (cs.map Char.toUpper) = endsKeyword cs := by
  cases cs with
  | nil => rfl
  | cons c cs =>
    rw [List.map_cons, endsKeyword, endsKeyword, toUpper_congr fun _ => isWordChar_of_isAlpha,
      toUpper_congr fun _ => foldsToLetter_of_isAlpha]

theorem isLongFalse_upper (w : String) (cs : List Char) :
    isLongFalse w (cs.map Char.toUpper) = isLongFalse w cs := by
  match cs with
  | [] | [_] => rfl
  | s :: e :: rest =>
    have plain : ∀ c : Char, c.isAlpha = true → (c == '\u017f') = false := by
      intro c letter
      rw [beq_eq_false_iff_ne]
      rintro rfl
      cases letter
    have long : (s.toUpper == '\u017f') = (s == '\u017f') := toUpper_congr plain s
    rw [List.map_cons, List.map_cons, isLongFalse, isLongFalse, long,
      Char.toUpper_toUpper_eq_toUpper, endsKeyword_upper]

theorem word_upper (c : Char) (cs : List Char) :
    word c.toUpper (cs.map Char.toUpper) = (word c cs).upper := by
  obtain ⟨tail, back, rfl, inside, stops⟩ := exists_word_split cs
  have inside' : ∀ d ∈ tail.map Char.toUpper, isWordChar d = true := by
    intro d hd
    obtain ⟨b, hb, rfl⟩ := List.mem_map.mp hd
    rw [toUpper_congr fun _ => isWordChar_of_isAlpha]
    exact inside b hb
  have stops' : ∀ d ∈ (back.map Char.toUpper).head?, isWordChar d = false := by
    intro d hd
    rw [List.head?_map] at hd
    obtain ⟨b, hb, rfl⟩ := Option.mem_map.mp hd
    rw [toUpper_congr fun _ => isWordChar_of_isAlpha]
    exact stops b hb
  have word : (c.toUpper :: tail.map Char.toUpper).map Char.toUpper = (c :: tail).map Char.toUpper :=
    map_toUpper_toUpper (c :: tail)
  rw [List.map_append, word_of_stops inside' stops', word_of_stops inside stops, word,
    List.length_map, isLongFalse_upper, endsKeyword_upper]
  split
  · rfl
  · split
    · rename_i kind text? known
      split
      · rcases of_keyword? known with ⟨_, rfl⟩ | ⟨rfl, ⟨rfl, _⟩ | ⟨rfl, _⟩⟩
        · exact congrArg (token kind · tail.length) (upper_ofList (c :: tail)).symm
        · exact congrArg (token .constant · tail.length) (upper_bitText true).symm
        · exact congrArg (token .constant · tail.length) (upper_bitText false).symm
      · exact congrArg (token .name · tail.length) (upper_upper _).symm
    · exact congrArg (token .name · tail.length) (upper_upper _).symm

theorem next_upper {p : Char → Bool} {value : Bool} (letters : ∀ c, c.isAlpha = true → p c = value)
    (cs : List Char) : ((cs.map Char.toUpper).head?.map p).getD false = (cs.head?.map p).getD false := by
  cases cs with
  | nil => rfl
  | cons c cs => exact toUpper_congr letters c

theorem front?_upper (c : Char) (cs : List Char) :
    front? c.toUpper (cs.map Char.toUpper) = (front? c cs).map upper := by
  cases letter : c.isAlpha with
  | true =>
    rw [front?_of_isAlpha letter, front?_of_isAlpha ((isAlpha_toUpper c).trans letter), word_upper]
    rfl
  | false =>
    have same : Switching.upper c.toString = c.toString := upper_toString letter
    have point : Switching.upper "." = "." := by decide
    rw [toUpper_of_not_isAlpha letter, front?, front?, next_upper fun _ => isWordChar_of_isAlpha,
      next_upper fun _ => isDigit_of_isAlpha, letter, if_neg Bool.false_ne_true,
      if_neg Bool.false_ne_true]
    split
    · rfl
    · split
      · split
        · rfl
        · exact congrArg (fun text => some (token .constant text 0)) same.symm
      · split
        · split
          · rfl
          · exact congrArg (fun text => some (token (.gate .and) text 0)) point.symm
        · cases sign? c with
          | none => rfl
          | some kind => exact congrArg (fun text => some (token kind text 0)) same.symm

end Lexeme

namespace Token

open Lexeme

variable {c : Char} {cs rest : List Char} {ts us : List Token} {kind : TokenKind} {text : String}
  {extra position : Nat}

def upper (t : Token) : Token := { t with text := Switching.upper t.text }

theorem toTokens_upper (position : Nat) (lexeme : Lexeme) :
    lexeme.upper.toTokens position = (lexeme.toTokens position).map upper := by
  cases lexeme <;> rfl

theorem extra_upper (lexeme : Lexeme) : lexeme.upper.extra = lexeme.extra := by
  cases lexeme <;> rfl

theorem scanFrom_upper (position : Nat) (cs : List Char) :
    scanFrom position (cs.map Char.toUpper) = (scanFrom position cs).map (List.map upper) := by
  fun_induction scanFrom position cs with
  | case1 =>
    rw [List.map_nil, scanFrom]
    rfl
  | case2 position c cs none =>
    have other : c.isAlpha = false := by
      by_contra letter
      rw [front?_of_isAlpha (Bool.not_eq_false _ ▸ letter)] at none
      cases none
    rw [List.map_cons, scanFrom, front?_upper, none, toUpper_of_not_isAlpha other]
    rfl
  | case3 position c cs lexeme front cause found ih =>
    rw [found] at ih
    rw [List.map_cons, scanFrom, front?_upper, front]
    simp only [Option.map_some, extra_upper, ← List.map_drop, ih]
    rfl
  | case4 position c cs lexeme front ts found ih =>
    rw [found] at ih
    rw [List.map_cons, scanFrom, front?_upper, front]
    simp only [Option.map_some, extra_upper, ← List.map_drop, ih, toTokens_upper]
    exact congrArg Except.ok List.map_append.symm

theorem upper_of_value (begins : Begins c cs (.token kind text extra))
    (value : kind = .name ∨ kind = .constant) : Switching.upper text = text := by
  obtain ⟨_, _, spelled⟩ := begins.spelled rfl
  rcases value with rfl | rfl
  · have word : text = String.ofList ((c :: cs.take extra).map Char.toUpper) := spelled
    rw [word, upper_upper]
  · rcases spelled with ⟨rfl, _⟩ | ⟨rfl, _⟩
    · exact upper_bitText true
    · exact upper_bitText false

theorem Scans.upper_of_value (h : Scans position cs ts rest) :
    ∀ t ∈ ts, t.kind = .name ∨ t.kind = .constant → Switching.upper t.text = t.text := by
  intro t ht
  obtain ⟨c, cs, extra, begins⟩ := h.exists_begins t ht
  exact Token.upper_of_value begins

/-- The tokens are of one kind and at one place. Their texts differ in letter case at most, and those
of a name or a constant not even there. -/
structure Recased (t u : Token) : Prop where
  kind : u.kind = t.kind
  position : u.position = t.position
  length : u.length = t.length
  letters : Switching.upper u.text = Switching.upper t.text
  value : t.kind = .name ∨ t.kind = .constant → u.text = t.text

theorem eq_prime_of_upper {s : String} (prime : Switching.upper s = "'") : s = "'" := by
  have letters : s.toList.map Char.toUpper = ['\''] := by
    rw [← String.toList_ofList (l := s.toList.map Char.toUpper), ← Switching.upper, prime]
    rfl
  obtain ⟨c, rest, spelled, first, none⟩ := List.map_eq_cons_iff.mp letters
  have other : c.isAlpha = false := by
    rw [← isAlpha_toUpper, first]
    rfl
  rw [toUpper_of_not_isAlpha other] at first
  rw [← String.toList_inj, spelled, first, List.map_eq_nil_iff.mp none]
  rfl

theorem upper_eq_prime_iff (s : String) : Switching.upper s = "'" ↔ s = "'" :=
  ⟨eq_prime_of_upper, fun prime => by rw [prime]; decide⟩

theorem Recased.alike {t u : Token} (h : Recased t u) : t.Alike u where
  kind := h.kind
  prime := by
    have texts : (u.text == "'") = (t.text == "'") := by
      rw [Bool.eq_iff_iff, beq_iff_eq, beq_iff_eq, ← upper_eq_prime_iff, h.letters,
        upper_eq_prime_iff]
    rw [isPrime, isPrime, h.kind, texts]
  value := h.value

theorem forall₂_recased
    (values : ∀ t ∈ ts, t.kind = .name ∨ t.kind = .constant → Switching.upper t.text = t.text)
    (values' : ∀ u ∈ us, u.kind = .name ∨ u.kind = .constant → Switching.upper u.text = u.text)
    (same : us.map upper = ts.map upper) : List.Forall₂ Recased ts us := by
  induction ts generalizing us with
  | nil =>
    rw [List.map_eq_nil_iff.mp same]
    exact .nil
  | cons t ts ih =>
    obtain ⟨u, us, rfl, first, more⟩ := List.map_eq_cons_iff.mp same
    obtain ⟨fixed, others⟩ := List.forall_mem_cons.mp values
    obtain ⟨fixed', others'⟩ := List.forall_mem_cons.mp values'
    obtain ⟨kind, letters, position, length⟩ := Token.mk.inj first
    refine .cons ⟨kind, position, length, letters, fun value => ?_⟩ (ih others others' more)
    have value' := kind.symm ▸ value
    rw [← fixed value, ← fixed' value', letters]

end Token

theorem Fault.Parallel.diagnostic? {cause cause' : Fault}
    (same : cause.Parallel Token.Recased cause') :
    ∃ d, cause.diagnostic? = some d ∧ d.label = "Syntax Error" ∧
      cause'.diagnostic? = some { d with message := cause'.message } := by
  have shown : ∀ {t u : Token} (message message' : String) (suggestion : Option String),
      Token.Recased t u → some (Diagnostic.syntactic message' u.position u.length suggestion) =
        some { Diagnostic.syntactic message t.position t.length suggestion with
          message := message' } := by
    intro t u message message' suggestion same
    rw [same.position, same.length]
    rfl
  cases same with
  | emptyExpression => exact ⟨_, rfl, rfl, rfl⟩
  | unexpectedToken same | nestedTooDeeply same | missingClosing same | missingOperand same =>
    exact ⟨_, rfl, rfl, shown _ _ _ same⟩

namespace Formula

/-- Texts that differ in letter case only fail with the same fault, or they are cut into the same
tokens, but for the letter case of operators. Then they stand for the same expression with the same
names, or both are refused, which is shown in the same way but for the message. -/
theorem ofText_recased {s t : String}
    (same : s.toList.map Char.toUpper = t.toList.map Char.toUpper) :
    match Token.scan s, Token.scan t with
    | .error cause, .error cause' => cause' = cause
    | .ok ts, .ok us =>
      List.Forall₂ Token.Recased ts us ∧
      match ofText s, ofText t with
      | .ok p, .ok q => q = p
      | .error cause, .error cause' =>
        ∃ d, cause.diagnostic? = some d ∧ d.label = "Syntax Error" ∧
          cause'.diagnostic? = some { d with message := cause'.message }
      | _, _ => False
    | _, _ => False := by
  have scans : (Token.scan s).map (List.map Token.upper) =
      (Token.scan t).map (List.map Token.upper) := by
    rw [Token.scan, Token.scan, ← Token.scanFrom_upper, same, Token.scanFrom_upper]
  rw [ofText, ofText]
  cases first : Token.scan s with
  | error cause =>
    cases second : Token.scan t with
    | error cause' =>
      rw [first, second] at scans
      exact (Except.error.inj scans).symm
    | ok us =>
      rw [first, second] at scans
      cases scans
  | ok ts =>
    cases second : Token.scan t with
    | error cause' =>
      rw [first, second] at scans
      cases scans
    | ok us =>
      rw [first, second] at scans
      obtain ⟨front, rfl, cut⟩ := Token.exists_scans_of_ok first
      obtain ⟨front', rfl, cut'⟩ := Token.exists_scans_of_ok second
      have texts := Except.ok.inj scans
      rw [List.map_append, List.map_append] at texts
      obtain ⟨bodies, _⟩ := List.append_inj' texts rfl
      have both := Token.forall₂_recased cut.upper_of_value cut'.upper_of_value bodies.symm
      have length : t.length = s.length := by
        simpa only [List.length_map, String.length_toList] using congrArg List.length same.symm
      have ends : Token.Recased (.finish s.length) (.finish t.length) :=
        ⟨rfl, length, rfl, rfl, fun _ => rfl⟩
      refine ⟨List.rel_append both (.cons ends .nil), ?_⟩
      have agree := agree_ofTokens (fun t u => Token.Recased.alike) both cut.unfinished rfl ends
      simp only
      generalize ofTokens (front ++ [.finish s.length]) = answer at agree ⊢
      generalize ofTokens (front' ++ [.finish t.length]) = answer' at agree ⊢
      cases agree with
      | accepted p => rfl
      | refused same => exact same.diagnostic?

theorem ofText_recased_operators :
    "a Or nOr".toList.map Char.toUpper = "A oR NOR".toList.map Char.toUpper ∧
    ∃ cause cause' d, ofText "a Or nOr" = .error cause ∧ ofText "A oR NOR" = .error cause' ∧
      cause.message ≠ cause'.message ∧ d.position = some 5 ∧ cause.diagnostic? = some d ∧
      cause'.diagnostic? = some { d with message := cause'.message } := by
  have same : "a Or nOr".toList.map Char.toUpper = "A oR NOR".toList.map Char.toUpper := by
    decide +kernel
  have first : Token.scan "a Or nOr" = .ok [⟨.name, "A", 0, 1⟩, ⟨.gate .or, "Or", 2, 2⟩,
      ⟨.gate .nor, "nOr", 5, 3⟩, .finish 8] := by decide +kernel
  have second : Token.scan "A oR NOR" = .ok [⟨.name, "A", 0, 1⟩, ⟨.gate .or, "oR", 2, 2⟩,
      ⟨.gate .nor, "NOR", 5, 3⟩, .finish 8] := by decide +kernel
  have refused : ofText "a Or nOr" = .error (.missingOperand ⟨.gate .nor, "nOr", 5, 3⟩) := by
    decide +kernel
  have refused' : ofText "A oR NOR" = .error (.missingOperand ⟨.gate .nor, "NOR", 5, 3⟩) := by
    decide +kernel
  have alike := ofText_recased same
  rw [first, second, refused, refused'] at alike
  obtain ⟨_, d, shown, _, shown'⟩ := alike
  have place : d.position = some 5 := by
    rw [← Option.some.inj shown]
    rfl
  exact ⟨same, _, _, d, refused, refused', by decide, place, shown, shown'⟩

end Formula

end Switching
