import Switching.CommandLine.Run
import Switching.Proofs.Analysis
import Switching.Proofs.Trace
import Switching.Proofs.Verification

/-! How a run of the command line ends that is given an expression. It always ends: every analysis
that is made has a minimization that leaves no minterm and passes its check, and every trace has a
value for each node. So the exit code is 1 exactly if the expression is refused or a variable that
is to be traced has no value, and neither a warning nor a failed check is ever printed. -/
namespace Switching

namespace Simplification

variable {solve : Solver} {method : Method} {text : String} {p : Parsed} {s : Simplification}

theorem ofText_verifies (sound : method = .exact → solve.Sound)
    (accepted : Formula.ofText text = .ok p) (few : p.names.length ≤ 6)
    (answer : ofText method text solve = .ok s) :
    s.minimization.uncovered = [] ∧
      s.minimization.verify (TruthTable.tableOf p.formula p.names text) = .ok (.rows []) := by
  obtain ⟨r, made, named, uncovered, minimizes⟩ := ofTable_minimizes (f := p.formula) sound few rfl
    (TruthTable.minterms_tableOf p.formula p.names text)
  cases made.symm.trans ((ofText_of_few accepted few).symm.trans answer)
  have nodup := Formula.nodup_of_ofText accepted
  have letters : ∀ x ∈ p.names, Lettered x := by
    intro x hx
    have identifier := Formula.isIdentifier_of_ofText accepted x
    exact (identifier (Formula.names_of_ofText accepted ▸ hx)).capitalized.lettered
  have bound := (TruthTable.isOnSet_mintermsOf p.formula p.names).bound
  have same := (Minimization.differences_eq_nil bound bound).mpr fun _ => Iff.rfl
  exact ⟨uncovered, (minimizes.verify_eq named nodup letters text).trans (by rw [same])⟩

end Simplification

namespace CommandLine

variable {o : Options} {text : String} {solve : Solver} {a : Analysis} {outcome : Outcome}

def traceText (f : Formula) (b : Assignment) : String :=
  let v := fun x => (b.value? x).getD false
  let trace := f.traceOnto v .empty
  lines <|
    ["Evaluation trace:"] ++ (f.nodes.map fun g => nodeText ((trace.value? g.id).getD false) g) ++
      ["Result: " ++ bitText (f.value v)]

theorem traceListing_eq (f : Formula) (b : Assignment) :
    traceListing f b =
      match f.unbound? b with
      | some x => .error (.undefinedVariable x)
      | none => .ok (traceText f b) := by
  rw [traceListing, Formula.evaluateTraced_eq]
  cases f.unbound? b with
  | some x => rfl
  | none =>
    have listed : ∀ v, f.nodes.mapM (traceLine (f.traceOnto v .empty)) = .ok
        (f.nodes.map fun g => nodeText (((f.traceOnto v .empty).value? g.id).getD false) g) := by
      intro v
      apply mapM_eq_ok
      intro g hg
      obtain ⟨c, found⟩ := Formula.exists_value_iff (v := v).mpr ⟨g, hg, rfl⟩
      simp only [traceLine, found, Option.getD_some]
    simp only [listed, traceText]

def passedText (m : Minimization) (t : TruthTable) : String :=
  "\n" ++ m.comparison t ++ lines ["", "Verification PASSED"]

theorem verificationText_eq {m : Minimization} {t : TruthTable}
    (verified : m.verify t = .ok (.rows [])) : verificationText m t = .ok (passedText m t) := by
  simp only [verificationText, verified, passedText]
  rfl

def closingText (o : Options) (a : Analysis) : String :=
  (if o.map then mapText a else "") ++
    match a.simplification? with
    | none => unavailableText
    | some s =>
      summaryText s ++ (if o.steps then stepsText s.minimization else "") ++
        if o.verbose then passedText s.minimization a.table else ""

def reportText (o : Options) (a : Analysis) : String :=
  headText o a ++
    (match o.trace? with
      | none => ""
      | some b => "\n" ++ traceText a.formula b) ++
    closingText o a

/-- What is known of an analysis that was made: its simplification is complete and verified. -/
structure Checked (a : Analysis) : Prop where
  complete : ∀ s, a.simplification? = some s → s.minimization.uncovered = []
  verified : ∀ s, a.simplification? = some s → s.minimization.verify a.table = .ok (.rows [])

theorem checked_of_ofText {method : Method} (sound : method = .exact → solve.Sound)
    (made : Analysis.ofText method text solve = .ok a) : Checked a := by
  obtain ⟨p, accepted, _, table, many, few⟩ := Analysis.of_ofText sound made
  have holds : ∀ s, a.simplification? = some s →
      s.minimization.uncovered = [] ∧ s.minimization.verify a.table = .ok (.rows []) := by
    intro s some
    by_cases fits : p.names.length ≤ 6
    · obtain ⟨r, answer, same⟩ := few fits
      cases same.symm.trans some
      exact table ▸ Simplification.ofText_verifies sound accepted fits answer
    · cases (many (Nat.not_le.mp fits)).symm.trans some
  exact ⟨fun s some => (holds s some).1, fun s some => (holds s some).2⟩

theorem tailOutcome_eq (checked : Checked a) (front : String) :
    tailOutcome o a front = .ok (.success (front ++ closingText o a)) := by
  unfold tailOutcome closingText
  cases found : a.simplification? with
  | none => simp only [String.append_assoc]
  | some s =>
    have complete : s.minimization.isComplete = true := by
      rw [Minimization.isComplete, checked.complete s found]
      rfl
    have verified := verificationText_eq (checked.verified s found)
    by_cases verbose : o.verbose = true
    · simp only [simplificationText, verbose, verified, complete, if_true, String.append_assoc]
    · simp only [simplificationText, verbose, complete, if_true, Bool.false_eq_true, if_false,
        String.append_empty, String.append_assoc]

/-- The ways in which a run ends that is given a text to analyze. -/
inductive Ends (o : Options) (text : String) (solve : Solver) : Outcome → Prop
  | validated (only : o.validate = true) : Ends o text solve (validationOutcome text)
  | refused {cause : Fault} {d : Diagnostic} (whole : o.validate = false)
      (failed : Analysis.ofText o.method text solve = .error cause)
      (shown : cause.diagnostic? = some d) : Ends o text solve (diagnosticOutcome o text d)
  | exported {a : Analysis} {s : String} (whole : o.validate = false)
      (made : Analysis.ofText o.method text solve = .ok a) (format : export? a o.format = some s) :
      Ends o text solve (.success (lines [s]))
  | unbound {a : Analysis} {b : Assignment} {x : String} (whole : o.validate = false)
      (made : Analysis.ofText o.method text solve = .ok a) (plain : o.format = .text)
      (traced : o.trace? = some b) (missing : a.formula.unbound? b = some x) :
      Ends o text solve
        (.failure (headText o a ++ "\n") (lines ["Error: Undefined variable: " ++ x]))
  | reported {a : Analysis} (whole : o.validate = false)
      (made : Analysis.ofText o.method text solve = .ok a) (plain : o.format = .text)
      (bound : ∀ b, o.trace? = some b → a.formula.unbound? b = none) :
      Ends o text solve (.success (reportText o a))

theorem analysisOutcome_ends (sound : o.method = .exact → solve.Sound) (whole : o.validate = false)
    (made : Analysis.ofText o.method text solve = .ok a) :
    ∃ outcome, analysisOutcome o a = .ok outcome ∧ Ends o text solve outcome := by
  have checked := checked_of_ofText sound made
  unfold analysisOutcome
  cases format : export? a o.format with
  | some s => exact ⟨_, rfl, .exported whole made format⟩
  | none =>
    have plain : o.format = .text := by
      revert format
      cases o.format <;> simp [export?]
    simp only [reportOutcome]
    cases traced : o.trace? with
    | none =>
      refine ⟨_, tailOutcome_eq checked _, ?_⟩
      have report : reportText o a = headText o a ++ closingText o a := by
        simp only [reportText, traced, String.append_empty]
      exact report ▸ .reported whole made plain fun b some => nomatch traced.symm.trans some
    | some b =>
      simp only [traceListing_eq]
      cases missing : a.formula.unbound? b with
      | some x => exact ⟨_, rfl, .unbound whole made plain traced missing⟩
      | none =>
        refine ⟨_, tailOutcome_eq checked _, ?_⟩
        have report : reportText o a =
            headText o a ++ "\n" ++ traceText a.formula b ++ closingText o a := by
          simp only [reportText, traced, String.append_assoc]
        refine report ▸ .reported whole made plain fun c some => ?_
        cases traced.symm.trans some
        exact missing

theorem runOptions_ends (given : o.expression? = some text) (other : o.examples = false)
    (sound : o.method = .exact → solve.Sound) :
    ∃ outcome, runOptions o solve = .ok outcome ∧ Ends o text solve outcome := by
  simp only [runOptions, other, given, Bool.false_eq_true, if_false]
  by_cases only : o.validate = true
  · simp only [only, if_true]
    exact ⟨_, rfl, .validated only⟩
  · have whole : o.validate = false := by simpa using only
    simp only [whole, Bool.false_eq_true, if_false]
    cases answer : Analysis.ofText o.method text solve with
    | error cause =>
      obtain ⟨d, shown⟩ := Analysis.exists_diagnostic sound answer
      refine ⟨_, ?_, .refused whole answer shown⟩
      simp only [faultOutcome, shown]
    | ok a => exact analysisOutcome_ends sound whole answer

/-- What makes the exit code 1. -/
inductive Fails (o : Options) (text : String) (solve : Solver) : Prop
  | invalid (only : o.validate = true) (refused : ¬∃ p, Formula.ofText text = .ok p)
  | refused {cause : Fault} {d : Diagnostic} (whole : o.validate = false)
      (failed : Analysis.ofText o.method text solve = .error cause)
      (shown : cause.diagnostic? = some d)
  | unbound {p : Parsed} {b : Assignment} {x : String} (whole : o.validate = false)
      (plain : o.format = .text) (traced : o.trace? = some b)
      (accepted : Formula.ofText text = .ok p) (used : x ∈ p.names) (missing : b.value? x = none)

theorem not_fails_of_made (sound : o.method = .exact → solve.Sound) (whole : o.validate = false)
    (made : Analysis.ofText o.method text solve = .ok a)
    (bound : o.format = .text → ∀ b, o.trace? = some b → a.formula.unbound? b = none) :
    ¬Fails o text solve := by
  rintro (⟨only, _⟩ | ⟨_, failed, _⟩ | ⟨_, plain, traced, accepted, used, missing⟩)
  · cases whole.symm.trans only
  · cases made.symm.trans failed
  · obtain ⟨p, again, formula, _⟩ := Analysis.of_ofText sound made
    cases accepted.symm.trans again
    have all := Formula.unbound?_eq_none.mp (bound plain _ traced)
    obtain ⟨c, found⟩ := all _ (formula ▸ Formula.names_of_ofText accepted ▸ used)
    cases found.symm.trans missing

theorem exitCode_of_accepted {p : Parsed} (accepted : Formula.ofText text = .ok p) :
    (validationOutcome text).exitCode = 0 := by
  simp only [validationOutcome, Validation.ofText, accepted]
  rfl

theorem exitCode_of_refused {cause : Fault} (refused : Formula.ofText text = .error cause) :
    (validationOutcome text).exitCode = 1 := by
  simp only [validationOutcome, Validation.ofText, refused]
  rfl

theorem Ends.exitCode_eq (sound : o.method = .exact → solve.Sound) (h : Ends o text solve outcome) :
    outcome.exitCode = 1 ∧ Fails o text solve ∨ outcome.exitCode = 0 ∧ ¬Fails o text solve := by
  cases h with
  | validated only =>
    cases answer : Formula.ofText text with
    | ok p =>
      refine .inr ⟨exitCode_of_accepted answer, ?_⟩
      rintro (⟨_, refused⟩ | ⟨whole, _⟩ | ⟨whole, _⟩)
      · exact refused ⟨p, answer⟩
      · cases whole.symm.trans only
      · cases whole.symm.trans only
    | error cause =>
      refine .inl ⟨exitCode_of_refused answer, .invalid only ?_⟩
      rintro ⟨p, accepted⟩
      cases answer.symm.trans accepted
  | refused whole failed shown =>
    refine .inl ⟨?_, .refused whole failed shown⟩
    unfold diagnosticOutcome
    split <;> rfl
  | exported whole made format =>
    refine .inr ⟨rfl, not_fails_of_made sound whole made fun plain => ?_⟩
    simp [plain, export?] at format
  | unbound whole made plain traced missing =>
    obtain ⟨p, accepted, formula, _⟩ := Analysis.of_ofText sound made
    obtain ⟨used, none⟩ := Formula.of_unbound? missing
    have known := Formula.names_of_ofText accepted
    exact .inl ⟨rfl, .unbound whole plain traced accepted (known ▸ formula ▸ used) none⟩
  | reported whole made plain bound =>
    exact .inr ⟨rfl, not_fails_of_made sound whole made fun _ => bound⟩

theorem head?_lines {l : String} {c : Char} (h : l.toList.head? = some c) (ls : List String) :
    (lines (l :: ls)).toList.head? = some c := by
  simp [lines, h]

theorem head?_uncoveredWarning (left : List Nat) :
    (uncoveredWarning left).toList.head? = some '\n' := by
  simp [uncoveredWarning, lines]

theorem label_of_diagnostic? {cause : Fault} {d : Diagnostic} (shown : cause.diagnostic? = some d) :
    d.label = "Lexical Error" ∨ d.label = "Syntax Error" ∨ d.label = "Error" := by
  cases cause with
  | unknownCharacter =>
    cases shown
    exact .inl rfl
  | emptyExpression | unexpectedToken | nestedTooDeeply | missingClosing | missingOperand =>
    cases shown
    exact .inr (.inl rfl)
  | undefinedVariable | tooManyVariables =>
    cases shown
    exact .inr (.inr rfl)
  | _ => cases shown

theorem exists_head?_label {cause : Fault} {d : Diagnostic} (shown : cause.diagnostic? = some d) :
    ∃ c ∈ ['L', 'S', 'E'], d.label.toList.head? = some c := by
  rcases label_of_diagnostic? shown with same | same | same
  · exact ⟨'L', by decide, by simp [same]⟩
  · exact ⟨'S', by decide, by simp [same]⟩
  · exact ⟨'E', by decide, by simp [same]⟩

theorem head?_friendly {d : Diagnostic} {c : Char} (h : d.label.toList.head? = some c)
    (text : Option String) : (d.friendly text).toList.head? = some c := by
  unfold Diagnostic.friendly
  split <;> simp [h]

theorem Ends.exists_errors (h : Ends o text solve outcome) :
    ∃ errors, outcome.errors = some errors ∧ errors.toList.head? ≠ some '\n' := by
  have quiet : ("" : String).toList.head? ≠ some '\n' := by decide
  cases h with
  | validated only =>
    refine ⟨"", ?_, quiet⟩
    unfold validationOutcome
    simp only
    split <;> rfl
  | refused whole failed shown =>
    unfold diagnosticOutcome
    split
    · exact ⟨"", rfl, quiet⟩
    · obtain ⟨c, listed, head⟩ := exists_head?_label shown
      refine ⟨_, rfl, ?_⟩
      simp only [head?_lines (head?_friendly head _), ne_eq, Option.some.injEq]
      rintro rfl
      exact absurd listed (by decide)
  | exported => exact ⟨"", rfl, quiet⟩
  | @unbound _ _ x =>
    refine ⟨_, rfl, ?_⟩
    have head : ("Error: Undefined variable: " ++ x).toList.head? = some 'E' := by simp
    simp only [head?_lines head, ne_eq, Option.some.injEq]
    decide
  | reported => exact ⟨"", rfl, quiet⟩

theorem Ends.errors_ne (h : Ends o text solve outcome) (left : List Nat) :
    outcome.errors ≠ some (uncoveredWarning left) := by
  obtain ⟨errors, told, head⟩ := h.exists_errors
  intro same
  cases told.symm.trans same
  exact head (head?_uncoveredWarning left)

/-- A run that is given an expression ends in one of these ways. It fails exactly if the expression
does not parse or has more than eight variables, or if a variable to be traced has no value. No run
warns of minterms that are left, and wherever a minimization is checked the check holds. -/
theorem run_ends {arguments : List String} (read : Reading.ofArguments arguments = .options o)
    (given : o.expression? = some text) (other : o.examples = false)
    (sound : o.method = .exact → solve.Sound) :
    ∃ outcome, run arguments solve = .ok outcome ∧ Ends o text solve outcome ∧
      (outcome.exitCode = 1 ↔ Fails o text solve) ∧
      (outcome.exitCode = 0 ↔ ¬Fails o text solve) ∧
      (∀ left, outcome.errors ≠ some (uncoveredWarning left)) ∧
      ((∃ cause d, Analysis.ofText o.method text solve = .error cause ∧
          cause.diagnostic? = some d) ↔
        (∃ cause, Formula.ofText text = .error cause) ∨
          ∃ p, Formula.ofText text = .ok p ∧ 8 < p.names.length) ∧
      ∀ a s, Analysis.ofText o.method text solve = .ok a → a.simplification? = some s →
        s.minimization.uncovered = [] ∧
          ∃ verdict, s.minimization.verify a.table = .ok verdict ∧ verdict.holds = true := by
  obtain ⟨outcome, answer, ends⟩ := runOptions_ends given other sound
  have ran : run arguments solve = .ok outcome := by simp only [run, read, answer]
  refine ⟨outcome, ran, ends, ?_, ?_, ends.errors_ne, ?_, fun a s made some => ?_⟩
  · obtain ⟨code, fails⟩ | ⟨code, well⟩ := ends.exitCode_eq sound
    · exact iff_of_true code fails
    · exact iff_of_false (by simp [code]) well
  · obtain ⟨code, fails⟩ | ⟨code, well⟩ := ends.exitCode_eq sound
    · exact iff_of_false (by simp [code]) (not_not_intro fails)
    · exact iff_of_true code well
  · refine Iff.trans ⟨fun ⟨cause, _, failed, _⟩ => ⟨cause, failed⟩, fun ⟨cause, failed⟩ => ?_⟩
      (Analysis.ofText_eq_error_iff sound)
    obtain ⟨d, shown⟩ := Analysis.exists_diagnostic sound failed
    exact ⟨cause, d, failed, shown⟩
  · have checked := checked_of_ofText sound made
    exact ⟨checked.complete s some, _, checked.verified s some, rfl⟩

/-- To trace `a b + a` the value of `b` is needed. With it the exact minimization is shown, and the
check of it passes. -/
theorem run_ends_absorption :
    (∃ outcome, run ["a b + a", "--trace", "a=1"] = .ok outcome ∧ outcome.exitCode = 1) ∧
      ∃ outcome, run ["a b + a", "--exact", "-v", "--trace=a=1,b=0"] = .ok outcome ∧
        outcome.exitCode = 0 ∧ ∀ left, outcome.errors ≠ some (uncoveredWarning left) := by
  let some : Options := { expression? := "a b + a", trace? := some (.ofList [("A", true)]) }
  let all : Options :=
    { expression? := "a b + a", method := .exact, verbose := true,
      trace? := Option.some (.ofList [("A", true), ("B", false)]) }
  have readSome : Reading.ofArguments ["a b + a", "--trace", "a=1"] = .options some := by
    decide +kernel
  have readAll : Reading.ofArguments ["a b + a", "--exact", "-v", "--trace=a=1,b=0"] =
      .options all := by
    decide +kernel
  let p : Parsed := ⟨.gate .or (.gate .and (.var "A" 1) (.var "B" 2) 3) (.var "A" 4) 5, ["A", "B"]⟩
  have accepted : Formula.ofText "a b + a" = .ok p := by decide +kernel
  have sound : Solver.branchAndBound.Sound := Solver.branchAndBound_optimal.sound
  constructor
  · obtain ⟨outcome, ran, _, one, _⟩ := run_ends readSome rfl rfl fun _ => sound
    have used : "B" ∈ p.names := by decide
    exact ⟨outcome, ran, one.mpr (.unbound rfl rfl rfl accepted used (by decide))⟩
  · obtain ⟨outcome, ran, _, _, zero, unwarned, refused, _⟩ :=
      run_ends readAll rfl rfl fun _ => sound
    refine ⟨outcome, ran, zero.mpr ?_, unwarned⟩
    rintro (⟨only, _⟩ | ⟨_, failed, shown⟩ | ⟨_, _, traced, again, used, missing⟩)
    · cases only
    · obtain ⟨_, stopped⟩ | ⟨q, again, many⟩ := refused.mp ⟨_, _, failed, shown⟩
      · cases accepted.symm.trans stopped
      · cases accepted.symm.trans again
        exact absurd many (by decide)
    · cases traced
      cases accepted.symm.trans again
      have bound : ∀ x ∈ p.names,
          (Assignment.ofList [("A", true), ("B", false)]).value? x ≠ none := by
        decide
      exact bound _ used missing

end CommandLine

end Switching
