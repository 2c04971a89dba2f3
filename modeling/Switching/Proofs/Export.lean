import Mathlib.Data.List.TakeWhile
import Switching.Proofs.Lookup
import Switching.Proofs.Spelling
import Switching.Token.Scan
import Switching.TruthTable.Export

/-! What can be told from an exported table. In each of the formats a table is a sheet of lines: one
with the header, one for each row, and others that hold no cells. No line end is in a line and no
cell has the character that the separator is known by, so the cells can be told from the text; and
from the cells the names, without the blanks that they are padded with, and the outputs. -/
namespace Switching

def IsCell (s : String) : Prop := ∀ c ∈ s.toList, isWordChar c = true ∨ c = ' '

namespace IsCell

variable {s : String} {c : Char}

theorem of_word (word : s.toList.all isWordChar = true) : IsCell s :=
  fun c hc => .inl (List.all_eq_true.mp word c hc)

theorem not_mem (cell : IsCell s) (sign : isWordChar c = false) (visible : c ≠ ' ') :
    c ∉ s.toList := by
  intro hc
  rcases cell c hc with word | blank
  · rw [sign] at word
    cases word
  · exact visible blank

theorem bit (b : Bool) : IsCell (bitText b) := by
  cases b <;> exact of_word (by decide)

theorem number (n : Nat) : IsCell (toString n) := by
  intro c hc
  left
  rw [Nat.toString_eq_repr, Nat.toList_repr] at hc
  have digit := Nat.isDigit_of_mem_toDigits (by decide) (by decide) hc
  simp [isWordChar, Char.isAlphanum, digit]

theorem padLeft (cell : IsCell s) (width : Nat) : IsCell (padLeft width s) := by
  intro c hc
  rw [Switching.padLeft, String.toList_ofList, List.leftpad, List.mem_append] at hc
  rcases hc with blank | inside
  · exact .inr (List.eq_of_mem_replicate blank)
  · exact cell c inside

end IsCell

/-- How cells and lines are put together in a format: what stands between cells and the character
that it is known by, what stands behind the last cell of a line, and the lines behind the rows. -/
structure Format where
  sep : String
  mark : Char
  ending : String
  behind : List String

namespace Format

def line (f : Format) (cells : List String) : String := f.sep.intercalate cells ++ f.ending

/-- Cells can be cut at the mark, and nothing of the format breaks a line. -/
structure Proper (f : Format) : Prop where
  divides : Divides f.sep f.mark
  sign : isWordChar f.mark = false
  visible : f.mark ≠ ' '
  sep : '\n' ∉ f.sep.toList
  ending : '\n' ∉ f.ending.toList
  behind : ∀ l ∈ f.behind, '\n' ∉ l.toList

variable {f : Format} {cells cells' : List String}

theorem Proper.line_inj (proper : f.Proper) (some : cells ≠ []) (some' : cells' ≠ [])
    (each : ∀ s ∈ cells, IsCell s) (each' : ∀ s ∈ cells', IsCell s)
    (same : f.line cells = f.line cells') : cells = cells' := by
  apply proper.divides.intercalate_inj some some'
  · exact fun s hs => (each s hs).not_mem proper.sign proper.visible
  · exact fun s hs => (each' s hs).not_mem proper.sign proper.visible
  · exact (String.append_left_inj f.ending).mp same

theorem Proper.line_unbroken (proper : f.Proper) (each : ∀ s ∈ cells, IsCell s) :
    '\n' ∉ (f.line cells).toList := by
  rw [line, String.toList_append, List.mem_append]
  refine not_or.mpr ⟨not_mem_intercalate proper.sep fun s hs => ?_, proper.ending⟩
  exact (each s hs).not_mem (by decide) (by decide)

end Format

/-- What the lines of a table hold: the cells of the header and of each row, and the lines before and
behind the header. -/
structure Sheet where
  ahead : List String
  header : List String
  between : List String
  rows : List (List String)

namespace Sheet

variable {f : Format} {a b : Sheet}

def lines (f : Format) (a : Sheet) : List String :=
  a.ahead ++ f.line a.header :: (a.between ++ (a.rows.map f.line ++ f.behind))

structure Proper (a : Sheet) : Prop where
  ahead : ∀ l ∈ a.ahead, '\n' ∉ l.toList
  header : a.header ≠ [] ∧ ∀ s ∈ a.header, IsCell s
  between : ∀ l ∈ a.between, '\n' ∉ l.toList
  rows : ∀ r ∈ a.rows, r ≠ [] ∧ ∀ s ∈ r, IsCell s

theorem Proper.unbroken (proper : a.Proper) (form : f.Proper) :
    ∀ l ∈ a.lines f, '\n' ∉ l.toList := by
  intro l hl
  simp only [lines, List.mem_append, List.mem_cons, List.mem_map] at hl
  rcases hl with hl | rfl | hl | ⟨r, hr, rfl⟩ | hl
  · exact proper.ahead l hl
  · exact form.line_unbroken proper.header.2
  · exact proper.between l hl
  · exact form.line_unbroken (proper.rows r hr).2
  · exact form.behind l hl

theorem rows_eq (form : f.Proper) {rs ss : List (List String)}
    (each : ∀ r ∈ rs, r ≠ [] ∧ ∀ s ∈ r, IsCell s) (each' : ∀ r ∈ ss, r ≠ [] ∧ ∀ s ∈ r, IsCell s)
    (same : rs.map f.line = ss.map f.line) : rs = ss := by
  induction rs generalizing ss with
  | nil => exact (List.map_eq_nil_iff.mp same.symm).symm
  | cons r rs ih =>
    obtain ⟨s, ss, rfl, first, rest⟩ := List.map_eq_cons_iff.mp same.symm
    obtain ⟨some, cells⟩ := each r (List.mem_cons_self ..)
    obtain ⟨some', cells'⟩ := each' s (List.mem_cons_self ..)
    rw [form.line_inj some some' cells cells' first.symm,
      ih (fun q hq => each q (List.mem_cons_of_mem _ hq))
        (fun q hq => each' q (List.mem_cons_of_mem _ hq)) rest.symm]

theorem cells_eq (form : f.Proper) (proper : a.Proper) (proper' : b.Proper)
    (ahead : a.ahead.length = b.ahead.length) (between : a.between.length = b.between.length)
    (same : "\n".intercalate (a.lines f) = "\n".intercalate (b.lines f)) :
    a.header = b.header ∧ a.rows = b.rows := by
  have each := lines_inj (by simp [lines]) (by simp [lines]) (proper.unbroken form)
    (proper'.unbroken form) same
  obtain ⟨_, onward⟩ := List.append_inj each ahead
  obtain ⟨head, onward⟩ := List.cons.inj onward
  obtain ⟨_, onward⟩ := List.append_inj onward between
  constructor
  · exact form.line_inj proper.header.1 proper'.header.1 proper.header.2 proper'.header.2 head
  · exact rows_eq form proper.rows proper'.rows (List.append_cancel_right onward)

end Sheet

namespace TruthTable

variable {t u : TruthTable} {r : Row}

def Worded (t : TruthTable) : Prop := ∀ x ∈ t.names, x.toList.all isWordChar = true

instance (t : TruthTable) : Decidable t.Worded :=
  inferInstanceAs (Decidable (∀ x ∈ t.names, x.toList.all isWordChar = true))

theorem worded (identifiers : ∀ x ∈ t.names, IsIdentifier x) : t.Worded :=
  fun x hx => List.all_eq_true.mpr fun c hc =>
    isWordChar_of_isNameChar ((identifiers x hx).isNameChar c hc)

theorem isCell_digits (t : TruthTable) (r : Row) : ∀ s ∈ t.digits r, IsCell s := by
  intro s hs
  obtain ⟨b, _, rfl⟩ := List.mem_map.mp hs
  exact .bit b

theorem output_eq {front front' back back' : List String} {b c : Bool}
    (width : back.length = back'.length)
    (same : front ++ bitText b :: back = front' ++ bitText c :: back') : b = c := by
  obtain ⟨_, behind⟩ := List.append_inj' same (by simp [width])
  exact bitText_inj (List.cons.inj behind).1

theorem outputs_eq {cells cells' : Row → List String}
    (told : ∀ r s, cells r = cells' s → r.output = s.output)
    (same : t.rows.map cells = u.rows.map cells') : t.outputs = u.outputs := by
  unfold outputs
  generalize t.rows = rs at same
  generalize u.rows = ss at same
  induction rs generalizing ss with
  | nil => rw [List.map_eq_nil_iff.mp same.symm]
  | cons r rs ih =>
    obtain ⟨s, ss, rfl, first, rest⟩ := List.map_eq_cons_iff.mp same.symm
    rw [List.map_cons, List.map_cons, told r s first.symm, ih ss rest.symm]

theorem digits_eq (t : TruthTable) (r : Row) :
    t.digits r = (r.bits t.names).map bitText ++ [bitText r.output] :=
  List.map_append

section Csv

def csvFormat : Format where
  sep := ","
  mark := ','
  ending := ""
  behind := []

theorem csvFormat_proper : csvFormat.Proper where
  divides := ⟨[], [], rfl, List.not_mem_nil⟩
  sign := by decide
  visible := by decide
  sep := by decide
  ending := by decide
  behind := by decide

def csvSheet (t : TruthTable) : Sheet where
  ahead := []
  header := t.names ++ ["Output", "Minterm"]
  between := []
  rows := t.rows.map fun r => t.digits r ++ [toString r.minterm]

theorem csv_eq (t : TruthTable) : t.csv = "\n".intercalate (t.csvSheet.lines csvFormat) := by
  have line : ∀ cells : List String, csvFormat.line cells = ",".intercalate cells :=
    fun _ => String.append_empty
  have behind : csvFormat.behind = [] := rfl
  simp only [csv, Sheet.lines, csvSheet, line, behind, List.nil_append, List.append_nil,
    List.map_map, Function.comp_def]

theorem csvSheet_proper (words : t.Worded) : t.csvSheet.Proper where
  ahead l hl := by cases hl
  header := by
    refine ⟨by simp [csvSheet], fun s hs => ?_⟩
    rcases List.mem_append.mp hs with name | title
    · exact .of_word (words s name)
    · rcases List.mem_pair.mp title with rfl | rfl <;> exact .of_word (by decide)
  between l hl := by cases hl
  rows cells hc := by
    obtain ⟨r, _, rfl⟩ := List.mem_map.mp hc
    refine ⟨by simp, fun s hs => ?_⟩
    rcases List.mem_append.mp hs with digit | number
    · exact isCell_digits t r s digit
    · exact List.mem_singleton.mp number ▸ .number r.minterm

theorem eq_of_csv (words : t.Worded) (words' : u.Worded) (same : t.csv = u.csv) :
    t.names = u.names ∧ t.outputs = u.outputs := by
  rw [csv_eq, csv_eq] at same
  obtain ⟨header, rows⟩ := Sheet.cells_eq csvFormat_proper (csvSheet_proper words)
    (csvSheet_proper words') rfl rfl same
  refine ⟨List.append_cancel_right header, ?_⟩
  refine outputs_eq (fun r s alike => ?_) rows
  simp only [digits_eq, List.append_assoc, List.singleton_append] at alike
  have width : [toString r.minterm].length = [toString s.minterm].length := rfl
  exact output_eq width alike

end Csv

section Latex

def latexFormat : Format where
  sep := " & "
  mark := '&'
  ending := " \\\\"
  behind := ["\\hline", "\\end\x7btabular\x7d"]

theorem latexFormat_proper : latexFormat.Proper where
  divides := ⟨[' '], [' '], rfl, by decide⟩
  sign := by decide
  visible := by decide
  sep := by decide
  ending := by decide
  behind := by decide

def latexSheet (t : TruthTable) : Sheet where
  ahead := ["\\begin\x7btabular\x7d\x7b|" ++ rule 'c' (t.width + 1) ++ "|\x7d", "\\hline"]
  header := t.names ++ ["F"]
  between := ["\\hline"]
  rows := t.rows.map t.digits

theorem latex_eq (t : TruthTable) :
    t.latex = "\n".intercalate (t.latexSheet.lines latexFormat) := by
  have opening : "|\x7d\n\\hline\n" = "|\x7d" ++ ("\n" ++ ("\\hline" ++ "\n")) := by simp
  have middle : " \\\\\n\\hline\n" = " \\\\" ++ ("\n" ++ ("\\hline" ++ "\n")) := by simp
  have row : " \\\\\n" = " \\\\" ++ "\n" := by simp
  have closing : "\\hline\n\\end\x7btabular\x7d" =
      "\\hline" ++ ("\n" ++ "\\end\x7btabular\x7d") := by simp
  have last : t.latexSheet.lines latexFormat =
      t.latexSheet.ahead ++ latexFormat.line t.latexSheet.header ::
        (t.latexSheet.between ++ (t.latexSheet.rows.map latexFormat.line ++ ["\\hline"])) ++
          ["\\end\x7btabular\x7d"] := by
    simp [Sheet.lines, latexFormat]
  rw [last, ← lines_append]
  unfold latex
  rw [opening, middle, row, closing]
  simp only [lines, latexSheet, latexFormat, Format.line, List.map_append, List.map_cons,
    List.map_nil, List.map_map, String.join_append, String.join_cons, String.join_nil,
    String.append_assoc, Function.comp_def, List.cons_append, List.nil_append, String.append_empty]

theorem latexSheet_proper (words : t.Worded) : t.latexSheet.Proper where
  ahead := by
    intro l hl
    rcases List.mem_pair.mp hl with rfl | rfl
    · rw [String.toList_append, String.toList_append, rule, String.toList_ofList]
      simp
    · decide
  header := by
    refine ⟨by simp [latexSheet], fun s hs => ?_⟩
    rcases List.mem_append.mp hs with name | title
    · exact .of_word (words s name)
    · exact List.mem_singleton.mp title ▸ .of_word (by decide)
  between l hl := List.mem_singleton.mp hl ▸ by decide
  rows cells hc := by
    obtain ⟨r, _, rfl⟩ := List.mem_map.mp hc
    exact ⟨by simp [digits], isCell_digits t r⟩

theorem eq_of_latex (words : t.Worded) (words' : u.Worded) (same : t.latex = u.latex) :
    t.names = u.names ∧ t.outputs = u.outputs := by
  rw [latex_eq, latex_eq] at same
  obtain ⟨header, rows⟩ := Sheet.cells_eq latexFormat_proper (latexSheet_proper words)
    (latexSheet_proper words') rfl rfl same
  refine ⟨List.append_cancel_right header, ?_⟩
  refine outputs_eq (fun r s alike => ?_) rows
  rw [digits_eq, digits_eq] at alike
  exact output_eq rfl alike

end Latex

section Plain

def plainFormat : Format where
  sep := " | "
  mark := '|'
  ending := ""
  behind := [""]

theorem plainFormat_proper : plainFormat.Proper where
  divides := ⟨[' '], [' '], rfl, by decide⟩
  sign := by decide
  visible := by decide
  sep := by decide
  ending := by decide
  behind := by decide

def plainSheet (t : TruthTable) : Sheet where
  ahead := []
  header := t.names.map (padLeft t.columnWidth) ++ ["F"]
  between :=
    [rule '-' (plainFormat.line (t.names.map (padLeft t.columnWidth) ++ ["F"])).length]
  rows := t.rows.map fun r =>
    (r.bits t.names).map (fun b => padLeft t.columnWidth (bitText b)) ++ [bitText r.output]

theorem line_plainFormat (cells : List String) :
    plainFormat.line cells = " | ".intercalate cells := String.append_empty

theorem columnWidth_pos (t : TruthTable) : 0 < t.columnWidth := by
  unfold columnWidth
  induction t.names.map String.length with
  | nil => decide
  | cons n ns ih => exact Nat.lt_of_lt_of_le ih (Nat.le_max_right ..)

theorem header_eq (t : TruthTable) :
    (if " | ".intercalate (t.names.map (padLeft t.columnWidth)) = "" then "F"
      else " | ".intercalate (t.names.map (padLeft t.columnWidth)) ++ " | F") =
      plainFormat.line (t.names.map (padLeft t.columnWidth) ++ ["F"]) := by
  have last : " | F" = " | " ++ "F" := by simp
  rw [line_plainFormat]
  cases names : t.names with
  | nil => simp
  | cons x xs =>
    have first : padLeft t.columnWidth x ≠ "" := by
      intro empty
      have wide := t.columnWidth_pos
      have length : (padLeft t.columnWidth x).toList.length = max t.columnWidth x.toList.length := by
        rw [padLeft, String.toList_ofList, List.length_leftpad]
      rw [empty, String.toList_empty, List.length_nil] at length
      omega
    have some : " | ".intercalate ((x :: xs).map (padLeft t.columnWidth)) ≠ "" := by
      intro empty
      cases xs with
      | nil => exact first (String.intercalate_singleton.symm.trans empty)
      | cons y ys =>
        rw [List.map_cons, List.map_cons, String.intercalate_cons_cons,
          String.append_eq_empty_iff, String.append_eq_empty_iff] at empty
        exact first empty.1.1
    rw [if_neg some, String.intercalate_append_of_ne_nil (by simp) (by simp),
      String.intercalate_singleton, last, String.append_assoc]

theorem plain_eq (t : TruthTable) :
    t.plain = "\n".intercalate (t.plainSheet.lines plainFormat) := by
  have last : t.plainSheet.lines plainFormat =
      (plainFormat.line t.plainSheet.header ::
        (t.plainSheet.between ++ t.plainSheet.rows.map plainFormat.line)) ++ [""] := by
    simp [Sheet.lines, plainSheet, plainFormat]
  rw [last, ← lines_append, String.append_empty]
  unfold plain
  simp only [header_eq]
  simp only [plainSheet, line_plainFormat, List.map_map, Function.comp_def, List.cons_append,
    List.nil_append]

theorem padLeft_inj {m n : Nat} {x y : String} (word : ' ' ∉ x.toList) (word' : ' ' ∉ y.toList)
    (same : padLeft m x = padLeft n y) : x = y := by
  have trimmed : ∀ (n : Nat) (s : String), ' ' ∉ s.toList →
      (padLeft n s).toList.dropWhile (· == ' ') = s.toList := by
    intro n s visible
    rw [padLeft, String.toList_ofList, List.leftpad, List.dropWhile_append_of_pos]
    · refine List.dropWhile_eq_self_iff.mpr fun some blank => visible ?_
      exact beq_iff_eq.mp blank ▸ List.getElem_mem some
    · intro c hc
      exact beq_iff_eq.mpr (List.eq_of_mem_replicate hc)
  rw [← String.toList_inj, ← trimmed m x word, same, trimmed n y word']

theorem plainSheet_proper (words : t.Worded) : t.plainSheet.Proper where
  ahead l hl := by cases hl
  header := by
    refine ⟨by simp [plainSheet], fun s hs => ?_⟩
    rcases List.mem_append.mp hs with name | title
    · obtain ⟨x, hx, rfl⟩ := List.mem_map.mp name
      exact (IsCell.of_word (words x hx)).padLeft t.columnWidth
    · exact List.mem_singleton.mp title ▸ .of_word (by decide)
  between l hl := by
    rw [List.mem_singleton.mp hl, rule, String.toList_ofList]
    simp
  rows cells hc := by
    obtain ⟨r, _, rfl⟩ := List.mem_map.mp hc
    refine ⟨by simp, fun s hs => ?_⟩
    rcases List.mem_append.mp hs with input | output
    · obtain ⟨b, _, rfl⟩ := List.mem_map.mp input
      exact (IsCell.bit b).padLeft t.columnWidth
    · exact List.mem_singleton.mp output ▸ .bit r.output

theorem names_eq_of_padLeft {m n : Nat} {xs ys : List String} (words : ∀ x ∈ xs, ' ' ∉ x.toList)
    (words' : ∀ y ∈ ys, ' ' ∉ y.toList) (same : xs.map (padLeft m) = ys.map (padLeft n)) :
    xs = ys := by
  induction xs generalizing ys with
  | nil => exact (List.map_eq_nil_iff.mp same.symm).symm
  | cons x xs ih =>
    obtain ⟨y, ys, rfl, first, rest⟩ := List.map_eq_cons_iff.mp same.symm
    rw [padLeft_inj (words x (by simp)) (words' y (by simp)) first.symm,
      ih (fun z hz => words z (List.mem_cons_of_mem _ hz))
        (fun z hz => words' z (List.mem_cons_of_mem _ hz)) rest.symm]

theorem Worded.visible (words : t.Worded) : ∀ x ∈ t.names, ' ' ∉ x.toList := by
  intro x hx blank
  have word := List.all_eq_true.mp (words x hx) ' ' blank
  exact absurd word (by decide)

theorem eq_of_plain (words : t.Worded) (words' : u.Worded) (same : t.plain = u.plain) :
    t.names = u.names ∧ t.outputs = u.outputs := by
  rw [plain_eq, plain_eq] at same
  obtain ⟨header, rows⟩ := Sheet.cells_eq plainFormat_proper (plainSheet_proper words)
    (plainSheet_proper words') rfl rfl same
  constructor
  · exact names_eq_of_padLeft words.visible words'.visible (List.append_cancel_right header)
  · exact outputs_eq (fun r s alike => output_eq rfl alike) rows

end Plain

/-- Tables over words, such as identifiers in any letter case, have the same names in the same order
and the same outputs if they have the same text in one of the formats. No name has to stand only
once, and the tables need not be those of a formula. -/
theorem exports_determine (words : t.Worded) (words' : u.Worded)
    (same : t.csv = u.csv ∨ t.latex = u.latex ∨ t.plain = u.plain) :
    t.names = u.names ∧ t.outputs = u.outputs := by
  rcases same with csv | latex | plain
  · exact eq_of_csv words words' csv
  · exact eq_of_latex words words' latex
  · exact eq_of_plain words words' plain

theorem exports_determine_titles :
    let names := ["OUTPUT", "F"]
    let f : Formula := .gate .and (.var "OUTPUT" 1) (.var "F" 2) 3
    let g : Formula := .not (.gate .nand (.var "OUTPUT" 1) (.var "F" 2) 3) 4
    ∃ t u, ofFormula f (some names) = .ok t ∧ ofFormula g (some names) = .ok u ∧ t.Worded ∧
      u.Worded ∧ t.plain = u.plain ∧ t.names = u.names ∧ t.outputs = u.outputs := by
  intro names f g
  have made : ofFormula f (some names) = .ok (tableOf f names f.infixText) :=
    ofFormula_eq_ok (by decide) (by decide +kernel) (by decide) none
  have made' : ofFormula g (some names) = .ok (tableOf g names g.infixText) :=
    ofFormula_eq_ok (by decide) (by decide +kernel) (by decide) none
  have words : (tableOf f names f.infixText).Worded := worded (by decide)
  have words' : (tableOf g names g.infixText).Worded := worded (by decide)
  have same : (tableOf f names f.infixText).plain = (tableOf g names g.infixText).plain := by
    decide +kernel
  exact ⟨_, _, made, made', words, words', same, exports_determine words words' (.inr (.inr same))⟩

end TruthTable

end Switching
