import Switching.Diagnostic
import Switching.Proofs.Grammar.Acceptance
import Switching.Proofs.Partition

/-! Where a fault is shown. The place that is reported for a refused text lies in the text, with all
the characters that the fault is about, and the line and the column that are shown for a place lead
back to it. -/
namespace Switching

section Lines

variable {text : List Char} {place other line column : Nat}

def lastLine (text : List Char) : List Char := (text.reverse.takeWhile (· ≠ '\n')).reverse

theorem lastLine_concat (text : List Char) (c : Char) :
    lastLine (text ++ [c]) = if c = '\n' then [] else lastLine text ++ [c] := by
  unfold lastLine
  rw [List.reverse_concat, List.takeWhile_cons]
  by_cases ended : c = '\n' <;> simp [ended]

theorem exists_splitOn_append (text : List Char) :
    ∃ front : List (List Char), front.length = text.count '\n' ∧
      (front.map (·.length + 1)).sum + (lastLine text).length = text.length ∧
      ∀ behind, (text ++ behind).splitOn '\n' =
        front ++ (behind.splitOn '\n').modifyHead (lastLine text ++ ·) := by
  have same : ([] ++ · : List Char → List Char) = id := by ext1; rfl
  -- from the end of the text, where the last line grows or is closed
  induction text using List.reverseRecOn with
  | nil =>
    refine ⟨[], rfl, rfl, fun behind => ?_⟩
    rw [show lastLine [] = [] from rfl, same, List.modifyHead_id]
    rfl
  | append_singleton text c ih =>
    obtain ⟨front, count, length, split⟩ := ih
    by_cases ended : c = '\n'
    · subst ended
      refine ⟨front ++ [lastLine text], by simp [count], ?_, fun behind => ?_⟩
      · rw [lastLine_concat, if_pos rfl]
        simp only [List.map_append, List.map_cons, List.map_nil, List.sum_append, List.sum_cons,
          List.sum_nil, List.length_append, List.length_cons, List.length_nil]
        omega
      · rw [List.append_assoc, List.singleton_append, split, List.splitOn_cons_eq_if_modifyHead,
          lastLine_concat, if_pos (beq_self_eq_true _), if_pos rfl, same, List.modifyHead_id]
        simp
    · refine ⟨front, by simp [count, ended], ?_, fun behind => ?_⟩
      · rw [lastLine_concat, if_neg ended]
        simp only [List.length_append, List.length_singleton]
        omega
      · rw [List.append_assoc, List.singleton_append, split, List.splitOn_cons_eq_if_modifyHead,
          lastLine_concat, if_neg (by simpa using ended), if_neg ended, List.modifyHead_modifyHead]
        simp [Function.comp_def]

/-- A place of a text by its line and its column, both counted from one. There is such a line; the
column is of one of its characters or right behind them; and the lines before it, each with its line
end, and the characters before the column are those before the place. -/
def Locates (text : List Char) (place line column : Nat) : Prop :=
  ∃ front here back offset, text.splitOn '\n' = front ++ here :: back ∧
    line = front.length + 1 ∧ column = offset + 1 ∧ offset ≤ here.length ∧
    (front.map (·.length + 1)).sum + offset = place

theorem Locates.place_eq (h : Locates text place line column)
    (h' : Locates text other line column) : other = place := by
  obtain ⟨front, here, back, offset, split, number, width, _, total⟩ := h
  obtain ⟨front', here', back', offset', split', number', width', _, total'⟩ := h'
  obtain ⟨rfl, _⟩ := List.append_inj (split.symm.trans split') (by omega)
  omega

theorem locates_count (within : place ≤ text.length) :
    Locates text place ((text.take place).count '\n' + 1)
      ((lastLine (text.take place)).length + 1) := by
  obtain ⟨front, count, length, split⟩ := exists_splitOn_append (text.take place)
  obtain ⟨first, back, behind⟩ :=
    List.exists_cons_of_ne_nil (List.splitOn_ne_nil '\n' (text.drop place))
  refine ⟨front, lastLine (text.take place) ++ first, back, (lastLine (text.take place)).length,
    ?_, by rw [count], rfl, by simp, ?_⟩
  · rw [← List.take_append_drop place text, split, List.take_append_drop, behind]
    rfl
  · rw [length, List.length_take_of_le within]

theorem before_natCast (text : List Char) (place : Nat) : before text place = text.take place := by
  unfold before
  rw [if_neg (by omega), Int.toNat_natCast]

theorem columnOf_natCast (within : place ≤ text.length) :
    columnOf text place = ((lastLine (text.take place)).length + 1 : Nat) := by
  have short : ((text.take place).reverse.takeWhile (· ≠ '\n')).length ≤ place := by
    refine Nat.le_trans (List.takeWhile_sublist _).length_le ?_
    rw [List.length_reverse]
    exact List.length_take_le ..
  simp only [columnOf, lineStart, before_natCast, List.length_take_of_le within, lastLine,
    List.length_reverse]
  omega

end Lines

section Within

variable {text : String} {cause : Fault} {t last : Token} {ts : List Token}

theorem Fault.diagnostic?_of_token? (named : cause.token? = some t) :
    ∃ d, cause.diagnostic? = some d ∧ d.position = some (t.position : Int) ∧
      d.length = some (t.length : Int) := by
  cases cause with
  | unexpectedToken | nestedTooDeeply | missingClosing | missingOperand =>
    cases named
    exact ⟨_, rfl, rfl, rfl⟩
  | _ => cases named

theorem Formula.exists_reported (inside : ∀ t ∈ ts, t.kind ≠ .finish)
    (finish : last.kind = .finish) (refused : ofTokens (ts ++ [last]) = .error cause) :
    cause = .emptyExpression ∨ ∃ t ∈ ts ++ [last], cause.token? = some t := by
  have rejected : (Reader.ofTokens (ts ++ [last])).parse =
      (.error cause, (Reader.ofTokens (ts ++ [last])).parse.2) := Prod.ext refused rfl
  obtain ⟨_, front, s, ahead, _, _, ⟨rfl, _⟩ | blamed⟩ :=
    Reader.refuses_of_parse (Reader.framed_ofTokens _) rfl rejected
  · exact .inl rfl
  · rw [stop_ofTokens inside finish] at blamed
    refine .inr ⟨_, ?_, (congrArg Fault.token? blamed).trans (Standing.token?_blame ..)⟩
    generalize Reader.unread cause _ = left at ahead
    obtain rfl : ts = front ++ left := (body_concat inside finish).symm.trans ahead
    cases left <;> simp

theorem Formula.exists_place (refused : ofText text = .error cause) :
    ∃ (d : Diagnostic) (place length : Nat), cause.diagnostic? = some d ∧
      d.position = some (place : Int) ∧ d.length = some (length : Int) ∧
      place + length ≤ text.length := by
  unfold ofText at refused
  cases scanned : Token.scan text with
  | error fault =>
    rw [scanned] at refused
    cases refused
    obtain ⟨done, _, c, back, whole, _, rfl⟩ := Token.exists_scans_of_error scanned
    refine ⟨_, done.length, 1, rfl, rfl, rfl, ?_⟩
    rw [← String.length_toList, whole, List.length_append, List.length_cons]
    omega
  | ok tokens =>
    rw [scanned] at refused
    obtain ⟨ts, rfl, scans⟩ := Token.exists_scans_of_ok scanned
    have parts := scans.partitions (List.append_nil _).symm
    obtain rfl | ⟨t, among, named⟩ := exists_reported scans.unfinished rfl refused
    · exact ⟨_, 0, 0, rfl, rfl, rfl, Nat.zero_le _⟩
    · obtain ⟨d, shown, position, length⟩ := Fault.diagnostic?_of_token? named
      refine ⟨d, t.position, t.length, shown, position, length, ?_⟩
      rcases List.mem_append.mp among with found | marker
      · have low := (parts.inside t found).2
        rw [Nat.zero_add, String.length_toList] at low
        exact low
      · cases List.mem_singleton.mp marker
        exact Nat.le_refl _

/-- Every text that is refused is refused for characters that it has, or for its end; and the line
and the column that are shown for a place of a text lead to this place and to no other. -/
theorem Diagnostic.friendly_locates (text : String) :
    (∀ cause, Formula.ofText text = .error cause →
      ∃ (d : Diagnostic) (place length : Nat), cause.diagnostic? = some d ∧
        d.position = some (place : Int) ∧ d.length = some (length : Int) ∧
        place + length ≤ text.length) ∧
    ∀ (d : Diagnostic) (place : Nat), d.position = some (place : Int) → place ≤ text.length →
      ∃ line column : Nat,
        d.friendly (some text) = d.label ++ " at position " ++ toString place ++ " (line " ++
          toString line ++ ", column " ++ toString column ++ "): " ++ d.message ∧
        Locates text.toList place line column ∧
        ∀ other, Locates text.toList other line column → other = place := by
  refine ⟨fun cause refused => Formula.exists_place refused, fun d place placed within => ?_⟩
  rw [← String.length_toList] at within
  have found := locates_count within
  refine ⟨_, _, ?_, found, fun other again => found.place_eq again⟩
  simp only [friendly, placed, lineOf, before_natCast, columnOf_natCast within]
  rfl

theorem Diagnostic.friendly_locates_end :
    Formula.ofText "A &\n\n(B C" = .error (.missingClosing (.finish 9)) ∧
    (∃ (d : Diagnostic) (place length : Nat),
      (Fault.missingClosing (.finish 9)).diagnostic? = some d ∧
        d.position = some (place : Int) ∧ d.length = some (length : Int) ∧ place + length ≤ 9) ∧
    ∃ line column : Nat,
      (Diagnostic.syntactic "Missing closing parenthesis" 9 0 none).friendly
          (some "A &\n\n(B C") =
        "Syntax Error at position 9 (line " ++ toString line ++ ", column " ++
          toString column ++ "): " ++ "Missing closing parenthesis" ∧
      Locates "A &\n\n(B C".toList 9 line column ∧
      ∀ other, Locates "A &\n\n(B C".toList other line column → other = 9 := by
  have refused : Formula.ofText "A &\n\n(B C" = .error (.missingClosing (.finish 9)) := by
    decide +kernel
  refine ⟨refused, (friendly_locates _).1 _ refused, ?_⟩
  have shown := (friendly_locates "A &\n\n(B C").2
    (.syntactic "Missing closing parenthesis" 9 0 none) 9 rfl (by decide)
  have nine : toString 9 = "9" := rfl
  simpa only [syntactic, nine, String.reduceAppend] using shown

end Within

end Switching
