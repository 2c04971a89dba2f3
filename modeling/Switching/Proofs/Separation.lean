import Switching.Diagnostic
import Switching.Proofs.Partition

/-! Blanks separate. What stands at the front of a text does not depend on what follows behind a
blank, so a text in front of a blank is cut as it is by itself, and the text behind the blanks is
cut as it is by itself too, only further on. -/
namespace Switching

namespace Lexeme

variable {b : Char}

theorem isAlpha_of_isBlank (blank : isBlank b = true) : b.isAlpha = false := by
  by_contra letter
  rw [isBlank_of_isAlpha (Bool.not_eq_false _ ▸ letter)] at blank
  cases blank

theorem isDigit_of_isBlank (blank : isBlank b = true) : b.isDigit = false := by
  by_contra digit
  rw [Bool.not_eq_false, Char.isDigit_iff_toNat] at digit
  change 48 ≤ b.toNat ∧ b.toNat ≤ 57 at digit
  simp [isBlank, CharClass.contains, CharClass.blank] at blank
  omega

theorem isWordChar_of_isBlank (blank : isBlank b = true) : isWordChar b = false := by
  have underscore : b ≠ '_' := by
    rintro rfl
    cases blank
  simp [isWordChar, Char.isAlphanum, isAlpha_of_isBlank blank, isDigit_of_isBlank blank,
    underscore]

theorem endsKeyword_of_isBlank (blank : isBlank b = true) (back : List Char) :
    endsKeyword (b :: back) = true := by
  have fold : foldsToLetter b = false := by
    by_contra folds
    simp only [Bool.not_eq_false, foldsToLetter, Bool.or_eq_true, beq_iff_eq] at folds
    rcases folds with ((rfl | rfl) | rfl) | rfl <;> cases blank
  simp [endsKeyword, isWordChar_of_isBlank blank, fold]

section Apart

variable (blank : isBlank b = true)

include blank

theorem endsKeyword_apart (cs back : List Char) :
    endsKeyword (cs ++ b :: back) = endsKeyword cs := by
  cases cs with
  | nil => exact endsKeyword_of_isBlank blank back
  | cons c cs => rfl

theorem isLongFalse_apart (w : String) (cs back : List Char) :
    isLongFalse w (cs ++ b :: back) = isLongFalse w cs := by
  match cs with
  | [] =>
    have plain : b ≠ '\u017f' := by
      rintro rfl
      cases blank
    cases back <;> simp [isLongFalse, plain]
  | [c] =>
    have plain : b.toUpper ≠ 'E' := by
      intro upper
      have letter : b.isAlpha = true := by
        rw [← Char.isUpper_toUpper_eq_isAlpha, upper]
        rfl
      rw [isAlpha_of_isBlank blank] at letter
      cases letter
    simp [isLongFalse, plain]
  | c :: e :: rest => simp only [List.cons_append, isLongFalse, endsKeyword_apart blank]

theorem word_apart (c : Char) (cs back : List Char) :
    word c (cs ++ b :: back) = word c cs := by
  obtain ⟨tail, rest, rfl, inside, stops⟩ := exists_word_split cs
  have stops' : ∀ d ∈ (rest ++ b :: back).head?, isWordChar d = false := by
    cases rest with
    | nil => simpa using isWordChar_of_isBlank blank
    | cons d ds => exact stops
  rw [List.append_assoc, word_of_stops inside stops', word_of_stops inside stops,
    isLongFalse_apart blank, endsKeyword_apart blank]

omit blank in
theorem next_apart {p : Char → Bool} (plain : p b = false) (cs back : List Char) :
    ((cs ++ b :: back).head?.map p).getD false = (cs.head?.map p).getD false := by
  cases cs with
  | nil => exact plain
  | cons c cs => rfl

/-- What stands at the front of a text does not depend on what follows behind a blank. -/
theorem front?_apart (c : Char) (cs back : List Char) :
    front? c (cs ++ b :: back) = front? c cs := by
  rw [front?, front?, word_apart blank, next_apart (isWordChar_of_isBlank blank),
    next_apart (isDigit_of_isBlank blank)]

end Apart

end Lexeme

namespace Token

def moved (n : Nat) (t : Token) : Token := { t with position := n + t.position }

end Token

def Fault.moved (n : Nat) : Fault → Fault
  | unknownCharacter c p => unknownCharacter c (n + p)
  | cause => cause

namespace Token

open Lexeme

variable {b : Char} {cs rest blanks : List Char} {ts : List Token} {position : Nat}

theorem toTokens_moved (n position : Nat) (lexeme : Lexeme) :
    lexeme.toTokens (n + position) = (lexeme.toTokens position).map (moved n) := by
  cases lexeme <;> rfl

theorem scanFrom_moved (n position : Nat) (cs : List Char) :
    scanFrom (n + position) cs =
      match scanFrom position cs with
      | .ok ts => .ok (ts.map (moved n))
      | .error cause => .error (cause.moved n) := by
  fun_induction scanFrom position cs with
  | case1 =>
    rw [scanFrom]
    rfl
  | case2 position c cs none =>
    rw [scanFrom, none]
    rfl
  | case3 position c cs lexeme front cause found ih =>
    rw [scanFrom, front]
    simp only [found] at ih ⊢
    rw [Nat.add_assoc, Nat.add_assoc, ← Nat.add_assoc position, ih]
  | case4 position c cs lexeme front ts found ih =>
    rw [scanFrom, front]
    simp only [found] at ih ⊢
    rw [Nat.add_assoc, Nat.add_assoc, ← Nat.add_assoc position, ih, toTokens_moved,
      List.map_append]

theorem Scans.cuts_apart (h : Scans position cs ts rest) (blank : isBlank b = true)
    (back : List Char) : Cuts position cs ts (rest ++ b :: back) :=
  h.cuts_of_unseen fun c cs => by rw [← List.append_assoc, front?_apart blank]

theorem cuts_blanks (blank : ∀ c ∈ blanks, isBlank c = true) (position : Nat) (back : List Char) :
    Cuts position blanks [] back := by
  induction blanks generalizing position with
  | nil => exact cuts_nil position back
  | cons c blanks ih =>
    obtain ⟨first, others⟩ := List.forall_mem_cons.mp blank
    have front : front? c ([] ++ (blanks ++ back)) = some .blank := begins_iff.mpr (.blank first)
    exact Cuts.append (cuts_of_front? front rfl) (ih others _)

theorem scanFrom_apart {first : List Char} (scans : Scans 0 first ts [])
    (some : blanks ≠ []) (blank : ∀ c ∈ blanks, isBlank c = true) (second : List Char) :
    scanFrom 0 (first ++ blanks ++ second) =
      (scanFrom (first.length + blanks.length) second).map (ts ++ ·) := by
  obtain ⟨b, bs, rfl⟩ := List.exists_cons_of_ne_nil some
  have front : Cuts 0 first ts (b :: bs ++ second) :=
    scans.cuts_apart (blank b (List.mem_cons_self ..)) _
  have whole := front.append (cuts_blanks blank _ second)
  rw [whole, List.append_nil, List.length_append, Nat.zero_add]

theorem scanFrom_apart_error {first back : List Char} {c : Char}
    (scans : Scans 0 first ts (c :: back)) (some : blanks ≠ [])
    (blank : ∀ c ∈ blanks, isBlank c = true) (second : List Char) :
    scanFrom 0 (first ++ c :: back ++ blanks ++ second) =
      .error (.unknownCharacter c first.length) := by
  obtain ⟨b, bs, rfl⟩ := List.exists_cons_of_ne_nil some
  have blank := blank b (List.mem_cons_self ..)
  have front : Cuts 0 first ts (c :: back ++ b :: (bs ++ second)) := scans.cuts_apart blank _
  have whole : first ++ c :: back ++ b :: bs ++ second =
      first ++ (c :: back ++ b :: (bs ++ second)) := by simp
  rw [whole, front, List.cons_append, scanFrom, front?_apart blank, scans.front?_rest, Nat.zero_add]
  rfl

/-- Between two texts, blanks keep them apart: the tokens are those of the first text, then those of
the second one at their places behind the blanks. A fault of the first text is the fault of both; a
fault of the second one alone is shown in the same way, at its place behind the blanks. -/
theorem scan_apart (s t w : String) (nonempty : w ≠ "") (blank : ∀ c ∈ w.toList, isBlank c = true) :
    match scan s, scan t with
    | .error cause, _ => scan (s ++ w ++ t) = .error cause
    | .ok ts, .ok us =>
      scan (s ++ w ++ t) = .ok (ts.filter (!·.isFinish) ++ us.map (moved (s.length + w.length)))
    | .ok _, .error cause => ∃ d q cause', cause.diagnostic? = some d ∧ d.position = some q ∧
        scan (s ++ w ++ t) = .error cause' ∧
        cause'.diagnostic? = some { d with position := some (s.length + w.length + q) } := by
  have some : w.toList ≠ [] := fun none => nonempty (String.toList_eq_nil_iff.mp none)
  have whole : scan (s ++ w ++ t) = scanFrom 0 (s.toList ++ w.toList ++ t.toList) := by
    rw [scan, String.toList_append, String.toList_append]
  rw [whole]
  cases first : scan s with
  | error cause =>
    obtain ⟨done, ts, c, back, split, scans, rfl⟩ := exists_scans_of_error first
    rw [split]
    exact scanFrom_apart_error scans some blank _
  | ok ts =>
    obtain ⟨front, rfl, scans⟩ := exists_scans_of_ok first
    have behind : scanFrom (s.length + w.length) t.toList = _ :=
      scanFrom_moved (s.length + w.length) 0 t.toList
    rw [scanFrom_apart scans some blank, String.length_toList, String.length_toList, behind]
    have second : scanFrom 0 t.toList = scan t := rfl
    rw [second]
    cases answer : scan t with
    | ok us =>
      simp only
      rw [scans.filter_unfinished]
      rfl
    | error cause =>
      obtain ⟨done, _, c, back, _, _, rfl⟩ := exists_scans_of_error answer
      have place : ((s.length + w.length + done.length : Nat) : Int) =
          s.length + w.length + done.length := by
        rw [Nat.cast_add, Nat.cast_add]
      refine ⟨_, done.length, _, rfl, rfl, rfl, ?_⟩
      rw [← place]
      rfl

theorem scan_apart_point :
    let blanks := "\u2003\t"
    blanks ≠ "" ∧ (∀ c ∈ blanks.toList, isBlank c = true) ∧
      scan "not." = .ok [⟨.negation, "not", 0, 3⟩, ⟨.gate .and, ".", 3, 1⟩, .finish 4] ∧
      scan ("not." ++ blanks ++ "0(") = .ok [⟨.negation, "not", 0, 3⟩, ⟨.gate .and, ".", 3, 1⟩,
        ⟨.constant, "0", 6, 1⟩, ⟨.opening, "(", 7, 1⟩, .finish 8] := by
  intro blanks
  have nonempty : blanks ≠ "" := by decide
  have blank : ∀ c ∈ blanks.toList, isBlank c = true :=
    List.all_eq_true.mp (by decide)
  have first : scan "not." = .ok [⟨.negation, "not", 0, 3⟩, ⟨.gate .and, ".", 3, 1⟩, .finish 4] := by
    decide +kernel
  have second : scan "0(" = .ok [⟨.constant, "0", 0, 1⟩, ⟨.opening, "(", 1, 1⟩, .finish 2] := by
    decide +kernel
  have both := scan_apart "not." "0(" blanks nonempty blank
  rw [first, second] at both
  simp only at both
  refine ⟨nonempty, blank, first, ?_⟩
  rw [both]
  decide +kernel

end Token

end Switching
