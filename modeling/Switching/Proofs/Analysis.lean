import Switching.Proofs.Identifiers
import Switching.Proofs.Karnaugh.Map
import Switching.Proofs.Location
import Switching.Proofs.Simplification

/-! The stages of an analysis. A text that is refused is refused with a diagnostic. Behind an
accepted text nothing fails as long as there are few enough variables, and an analysis holds the
simplification that the text has by itself. -/
namespace Switching

section Text

variable {text : String} {p : Parsed} {cause : Fault} {solve : Solver} {method : Method}

theorem Formula.exists_diagnostic (refused : ofText text = .error cause) :
    ∃ d, cause.diagnostic? = some d := by
  obtain ⟨d, _, _, shown, _⟩ := exists_place refused
  exact ⟨d, shown⟩

theorem Formula.nodup_of_ofText (accepted : ofText text = .ok p) : p.names.Nodup := by
  rw [names_of_ofText accepted]
  exact p.formula.pairwise_names.imp fun below => ne_of_lt below

theorem TruthTable.ofFormula_of_ofText (accepted : Formula.ofText text = .ok p)
    (few : p.names.length ≤ 8) :
    ofFormula p.formula (some p.names) (some text) = .ok (tableOf p.formula p.names text) :=
  ofFormula_eq_ok (Formula.nodup_of_ofText accepted)
    (Formula.names_of_ofText accepted ▸ List.Subset.refl _) few (some text)

namespace Simplification

theorem ofText_refused (refused : Formula.ofText text = .error cause) :
    ofText method text solve = .error cause := by
  rw [ofText, refused]

theorem ofText_of_many (accepted : Formula.ofText text = .ok p) (many : 6 < p.names.length) :
    ofText method text solve = .error (.tooManyVariables .minimization p.names.length) := by
  rw [ofText, accepted]
  exact if_pos many

theorem ofText_of_few (accepted : Formula.ofText text = .ok p) (few : p.names.length ≤ 6) :
    ofText method text solve =
      ofTable method (TruthTable.tableOf p.formula p.names text) p.formula solve := by
  have limit : ¬Activity.minimization.limit < p.names.length := Nat.not_lt.mpr few
  have table := TruthTable.ofFormula_of_ofText accepted (few.trans (by decide))
  rw [ofText, accepted]
  simp only [if_neg limit, table]

theorem exists_ofText (sound : method = .exact → solve.Sound)
    (accepted : Formula.ofText text = .ok p) (few : p.names.length ≤ 6) :
    ∃ s, ofText method text solve = .ok s := by
  obtain ⟨s, answer, _⟩ := ofTable_minimizes (f := p.formula) sound few rfl
    (TruthTable.minterms_tableOf p.formula p.names text)
  exact ⟨s, (ofText_of_few accepted few).trans answer⟩

theorem ofText_greedy (text : String) (solve solve' : Solver) :
    ofText .greedy text solve = ofText .greedy text solve' := rfl

end Simplification

namespace Analysis

theorem exists_mapOf {t : TruthTable} (nodup : t.names.Nodup) : ∃ map?, mapOf t = .ok map? := by
  unfold mapOf
  split
  · exact ⟨_, rfl⟩
  · rename_i mappable
    rw [Bool.or_eq_true, not_or, decide_eq_true_eq, decide_eq_true_eq] at mappable
    have few : 2 ≤ t.width ∧ t.width ≤ 4 :=
      ⟨Nat.not_lt.mp mappable.1, Nat.not_lt.mp mappable.2⟩
    rw [KarnaughMap.ofTable_eq nodup few]
    exact ⟨_, rfl⟩

theorem ofText_refused (refused : Formula.ofText text = .error cause) :
    ofText method text solve = .error cause := by
  unfold Formula.ofText at refused
  unfold ofText
  cases scanned : Token.scan text with
  | error fault =>
    rw [scanned] at refused
    cases refused
    rfl
  | ok tokens =>
    rw [scanned] at refused
    have parsed : Formula.ofTokens tokens = .error cause := refused
    simp only [bind, Except.bind, parsed]

theorem ofText_of_many (accepted : Formula.ofText text = .ok p) (many : 8 < p.names.length) :
    ofText method text solve = .error (.tooManyVariables .table p.names.length) := by
  obtain ⟨tokens, scanned, parsed⟩ := Formula.exists_scan accepted
  have table : TruthTable.ofFormula p.formula (some p.names) (some text) =
      .error (.tooManyVariables .table p.names.length) := if_pos many
  simp only [ofText, bind, Except.bind, scanned, parsed, table]

theorem ofText_of_few (sound : method = .exact → solve.Sound)
    (accepted : Formula.ofText text = .ok p) (few : p.names.length ≤ 8) :
    ∃ a, ofText method text solve = .ok a ∧ a.formula = p.formula ∧
      a.table = TruthTable.tableOf p.formula p.names text ∧
      (6 < p.names.length → a.simplification? = none) ∧
      (p.names.length ≤ 6 → ∃ s, Simplification.ofText method text solve = .ok s ∧
        a.simplification? = some s) := by
  obtain ⟨tokens, scanned, parsed⟩ := Formula.exists_scan accepted
  let t := TruthTable.tableOf p.formula p.names text
  have table : TruthTable.ofFormula p.formula (some p.names) (some text) = .ok t :=
    TruthTable.ofFormula_of_ofText accepted few
  have nodup : t.names.Nodup := Formula.nodup_of_ofText accepted
  obtain ⟨map?, mapped⟩ := exists_mapOf nodup
  by_cases many : 6 < p.names.length
  · have none : simplificationOf method t p.formula solve = .ok none := if_pos many
    refine ⟨⟨text, tokens, p.formula, p.names, t, map?, .none⟩, ?_, rfl, rfl, fun _ => rfl,
      fun fewer => absurd many (Nat.not_lt.mpr fewer)⟩
    simp only [ofText, bind, Except.bind, scanned, parsed, table, mapped, none]
    rfl
  · obtain ⟨s, answer⟩ := Simplification.exists_ofText sound accepted (Nat.not_lt.mp many)
    have minimized : Simplification.ofTable method t p.formula solve = .ok s := by
      rw [← answer, Simplification.ofText_of_few accepted (Nat.not_lt.mp many)]
    have some : simplificationOf method t p.formula solve = .ok (some s) := by
      rw [simplificationOf, minimized]
      exact if_neg many
    refine ⟨⟨text, tokens, p.formula, p.names, t, map?, s⟩, ?_, rfl, rfl,
      fun more => absurd more many, fun _ => ⟨s, answer, rfl⟩⟩
    simp only [ofText, bind, Except.bind, scanned, parsed, table, mapped, some]
    rfl

variable {a : Analysis}

theorem of_ofText (sound : method = .exact → solve.Sound)
    (made : ofText method text solve = .ok a) :
    ∃ p, Formula.ofText text = .ok p ∧ a.formula = p.formula ∧
      a.table = TruthTable.tableOf p.formula p.names text ∧
      (6 < p.names.length → a.simplification? = none) ∧
      (p.names.length ≤ 6 → ∃ s, Simplification.ofText method text solve = .ok s ∧
        a.simplification? = some s) := by
  cases answer : Formula.ofText text with
  | error cause => cases (ofText_refused answer).symm.trans made
  | ok p =>
    by_cases few : p.names.length ≤ 8
    · obtain ⟨b, again, holds⟩ := ofText_of_few sound answer few
      cases again.symm.trans made
      exact ⟨p, rfl, holds⟩
    · cases (ofText_of_many answer (Nat.not_le.mp few)).symm.trans made

/-- An analysis fails if the text is refused or has too many variables, and for no other reason. -/
theorem ofText_eq_error_iff (sound : method = .exact → solve.Sound) :
    (∃ cause, ofText method text solve = .error cause) ↔
      (∃ cause, Formula.ofText text = .error cause) ∨
        ∃ p, Formula.ofText text = .ok p ∧ 8 < p.names.length := by
  constructor
  · rintro ⟨cause, failed⟩
    cases answer : Formula.ofText text with
    | error cause => exact .inl ⟨cause, rfl⟩
    | ok p =>
      refine .inr ⟨p, rfl, Nat.not_le.mp fun few => ?_⟩
      obtain ⟨a, made, _⟩ := ofText_of_few sound answer few
      cases made.symm.trans failed
  · rintro (⟨cause, refused⟩ | ⟨p, accepted, many⟩)
    · exact ⟨cause, ofText_refused refused⟩
    · exact ⟨_, ofText_of_many accepted many⟩

theorem exists_diagnostic (sound : method = .exact → solve.Sound)
    (failed : ofText method text solve = .error cause) : ∃ d, cause.diagnostic? = some d := by
  obtain ⟨_, refused⟩ | ⟨p, accepted, many⟩ := (ofText_eq_error_iff sound).mp ⟨cause, failed⟩
  · cases (ofText_refused refused).symm.trans failed
    exact Formula.exists_diagnostic refused
  · cases (ofText_of_many accepted many).symm.trans failed
    exact ⟨_, rfl⟩

end Analysis

end Text

end Switching
