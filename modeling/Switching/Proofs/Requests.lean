import Switching.Proofs.Analysis
import Switching.Service

/-! The answers to requests. No request is passed on as a fault: whatever stands where an expression
should, it is answered with success or as a bad request, and which of the two it is depends on
nothing but the text being accepted and the number of its variables. -/
namespace Switching

namespace Document

def member? (key : String) : Document → Option Document
  | object members => members.lookup key
  | _ => none

def at? (d : Document) (path : List String) : Option Document :=
  path.foldlM (fun d key => d.member? key) d

theorem at?_singleton (d : Document) (key : String) : d.at? [key] = d.member? key := by
  simp [at?]

def expression? : Document → Option Parsed
  | text s => (Formula.ofText s).toOption
  | _ => none

def variableCount (x : Document) : Nat := (x.expression?.map fun p => p.names.length).getD 0

theorem expression?_eq_some {x : Document} {p : Parsed} :
    x.expression? = some p ↔ ∃ s, x = text s ∧ Formula.ofText s = .ok p := by
  cases x with
  | text s =>
    rw [expression?]
    cases answer : Formula.ofText s with
    | ok q => simp [answer, Except.toOption]
    | error cause => simp [answer, Except.toOption]
  | _ => simp [expression?]

theorem expression?_eq_none {s : String} :
    (text s).expression? = none ↔ ∃ cause, Formula.ofText s = .error cause := by
  rw [expression?]
  cases answer : Formula.ofText s with
  | ok q => simp [Except.toOption]
  | error cause => simp [Except.toOption]

end Document

theorem Formula.ne_empty_of_ofText {s : String} {p : Parsed} (accepted : ofText s = .ok p) :
    s ≠ "" := by
  rintro rfl
  have refused : ofText "" = .error .emptyExpression := by decide +kernel
  rw [refused] at accepted
  cases accepted

theorem Simplification.exists_member (s : Simplification) :
    ∀ key ∈ ["original", "simplified", "statistics"],
      ∃ d, ∀ withSteps, (s.toDocument withSteps).member? key = some d := by
  intro key listed
  simp only [List.mem_cons, List.not_mem_nil, or_false] at listed
  rcases listed with rfl | rfl | rfl
  · exact ⟨_, fun withSteps => rfl⟩
  · exact ⟨_, fun withSteps => rfl⟩
  · exact ⟨_, fun withSteps => rfl⟩

namespace Response

variable {x : Document} {s : String} {p : Parsed} {cause : Fault} {d : Diagnostic}
  {solve : Solver} {method : Method}

theorem ofFault_eq (shown : cause.diagnostic? = some d) :
    ofFault s cause = .ok ⟨400, d.toDocument (some s)⟩ := by
  rw [ofFault, shown]

theorem parse_of_fault (failed : Analysis.ofText .greedy s = .error cause)
    (shown : cause.diagnostic? = some d) : ∃ r, parse (.text s) = .ok r ∧ r.status = 400 := by
  by_cases empty : s = ""
  · exact ⟨noExpression, if_pos empty, rfl⟩
  · simp only [parse, if_neg empty, failed]
    exact ⟨_, ofFault_eq shown, rfl⟩

theorem simplify_of_fault (failed : Simplification.ofText method s solve = .error cause)
    (shown : cause.diagnostic? = some d) :
    ∃ r, simplify method (.text s) solve = .ok r ∧ r.status = 400 := by
  by_cases empty : s = ""
  · exact ⟨noExpression, if_pos empty, rfl⟩
  · simp only [simplify, if_neg empty, failed]
    cases cause with
    | tooManyVariables activity count => exact ⟨_, rfl, rfl⟩
    | _ => exact ⟨_, ofFault_eq shown, rfl⟩

theorem at?_data (d : Document) (path : List String) :
    (success d).body.at? ("data" :: path) = d.at? path := rfl

theorem at?_simplification (a : Analysis) (path : List String) :
    (analysisDocument a).at? ("simplification" :: path) =
      (Document.ofOption (a.simplification?.map (·.toDocument false))).at? path := rfl

theorem exists_analysis (accepted : Formula.ofText s = .ok p) (few : p.names.length ≤ 8) :
    ∃ a, Analysis.ofText .greedy s = .ok a ∧
      (6 < p.names.length → a.simplification? = none) ∧
      (p.names.length ≤ 6 → ∃ q, Simplification.ofText .greedy s = .ok q ∧
        a.simplification? = some q) := by
  have sound : Method.greedy = .exact → Solver.branchAndBound.Sound := fun other => nomatch other
  obtain ⟨a, answer, _, _, simplified⟩ := Analysis.ofText_of_few sound accepted few
  exact ⟨a, answer, simplified⟩

def statusFor (x : Document) (limit : Nat) : Nat :=
  if x.expression?.isSome ∧ x.variableCount ≤ limit then 200 else 400

/-- Whatever is requested is answered. What holds no expression, or one with too many variables, is
a bad request; any other expression is answered with success, and by a response as given. -/
structure Answers (endpoint : Document → Except Fault Response) (limit : Nat)
    (given : String → Response → Prop) : Prop where
  other : ∀ x, (∀ s, x ≠ .text s) → ∃ r, endpoint x = .ok r ∧ r.status = 400
  refused : ∀ s cause, Formula.ofText s = .error cause →
    ∃ r, endpoint (.text s) = .ok r ∧ r.status = 400
  many : ∀ s p, Formula.ofText s = .ok p → limit < p.names.length →
    ∃ r, endpoint (.text s) = .ok r ∧ r.status = 400
  few : ∀ s p, Formula.ofText s = .ok p → p.names.length ≤ limit →
    ∃ r, endpoint (.text s) = .ok r ∧ r.status = 200 ∧ given s r

theorem Answers.exists_response {endpoint : Document → Except Fault Response} {limit : Nat}
    {given : String → Response → Prop} (h : Answers endpoint limit given) (x : Document) :
    ∃ r, endpoint x = .ok r ∧ r.status = statusFor x limit ∧
      (r.status = 200 → ∃ s p, x = .text s ∧ Formula.ofText s = .ok p ∧
        p.names.length ≤ limit ∧ given s r) := by
  cases found : x.expression? with
  | none =>
    have bad : statusFor x limit = 400 := by simp [statusFor, found]
    obtain ⟨r, answer, status⟩ : ∃ r, endpoint x = .ok r ∧ r.status = 400 := by
      by_cases text : ∃ s, x = .text s
      · obtain ⟨s, rfl⟩ := text
        obtain ⟨cause, refused⟩ := Document.expression?_eq_none.mp found
        exact h.refused s cause refused
      · exact h.other x fun s same => text ⟨s, same⟩
    exact ⟨r, answer, status.trans bad.symm, by simp [status]⟩
  | some p =>
    obtain ⟨s, rfl, accepted⟩ := Document.expression?_eq_some.mp found
    have status : statusFor (.text s) limit = if p.names.length ≤ limit then 200 else 400 := by
      simp [statusFor, Document.variableCount, found]
    rw [status]
    by_cases few : p.names.length ≤ limit
    · obtain ⟨r, answer, success, holds⟩ := h.few s p accepted few
      refine ⟨r, answer, success.trans (if_pos few).symm, fun _ => ?_⟩
      exact ⟨s, p, rfl, accepted, few, holds⟩
    · obtain ⟨r, answer, bad⟩ := h.many s p accepted (Nat.not_le.mp few)
      exact ⟨r, answer, bad.trans (if_neg few).symm, by simp [bad]⟩

theorem answers_parse : Answers parse 8 fun s r =>
    ∃ a, Analysis.ofText .greedy s = .ok a ∧ r = success (analysisDocument a) where
  other x none := by
    cases x with
    | text s => exact absurd rfl (none s)
    | _ => exact ⟨noExpression, rfl, rfl⟩
  refused s cause refused := by
    obtain ⟨d, shown⟩ := Formula.exists_diagnostic refused
    exact parse_of_fault (Analysis.ofText_refused refused) shown
  many s p accepted many := parse_of_fault (Analysis.ofText_of_many accepted many) rfl
  few s p accepted few := by
    obtain ⟨a, answer, _⟩ := exists_analysis accepted few
    refine ⟨success (analysisDocument a), ?_, rfl, a, answer, rfl⟩
    simp only [parse, if_neg (Formula.ne_empty_of_ofText accepted), answer]

theorem answers_simplify (sound : method = .exact → solve.Sound) :
    Answers (simplify method · solve) 6 fun s r =>
      ∃ q, Simplification.ofText method s solve = .ok q ∧ r = success (q.toDocument true) where
  other x none := by
    cases x with
    | text s => exact absurd rfl (none s)
    | _ => exact ⟨noExpression, rfl, rfl⟩
  refused s cause refused := by
    obtain ⟨d, shown⟩ := Formula.exists_diagnostic refused
    exact simplify_of_fault (Simplification.ofText_refused refused) shown
  many s p accepted many := simplify_of_fault (Simplification.ofText_of_many accepted many) rfl
  few s p accepted few := by
    obtain ⟨q, answer⟩ := Simplification.exists_ofText sound accepted few
    refine ⟨success (q.toDocument true), ?_, rfl, q, answer, rfl⟩
    simp only [simplify, if_neg (Formula.ne_empty_of_ofText accepted), answer]

theorem validate_members (x : Document) : (validate x).status = 200 ∧
    (validate x).body.member? "valid" = some (.bool x.expression?.isSome) ∧
    (validate x).body.member? "variableCount" = some (.nat x.variableCount) := by
  have written : ∀ s, (Validation.ofText s).toDocument.member? "valid" =
        some (.bool (Document.text s).expression?.isSome) ∧
      (Validation.ofText s).toDocument.member? "variableCount" =
        some (.nat (Document.text s).variableCount) := by
    intro s
    rw [Document.variableCount, Document.expression?, Validation.ofText]
    cases Formula.ofText s with
    | ok p => exact ⟨rfl, rfl⟩
    | error cause => exact ⟨rfl, rfl⟩
  cases x with
  | text s => exact ⟨rfl, written s⟩
  | _ =>
    have empty : (Document.text "").expression? = none := by decide +kernel
    have same := written ""
    rw [Document.variableCount, empty] at same
    exact ⟨rfl, same⟩

structure Agree (method : Method) (x : Document) (validation analysis simplification : Response) :
    Prop where
  validated : validation.status = 200
  valid : validation.body.member? "valid" = some (.bool x.expression?.isSome)
  count : validation.body.member? "variableCount" = some (.nat x.variableCount)
  analyzed : analysis.status = statusFor x 8
  simplified : simplification.status = statusFor x 6
  absent : analysis.status = 200 →
    (analysis.body.at? ["data", "simplification"] = some .null ↔
      x.variableCount = 7 ∨ x.variableCount = 8)
  same : method = .greedy → analysis.status = 200 → simplification.status = 200 →
    ∀ key ∈ ["original", "simplified", "statistics"],
      ∃ d, analysis.body.at? ["data", "simplification", key] = some d ∧
        simplification.body.at? ["data", key] = some d

/-- A request for an expression is always answered, whatever stands where the text should, and the
answers agree. -/
theorem requests_agree (sound : method = .exact → solve.Sound) (x : Document) :
    ∃ analysis simplification, parse x = .ok analysis ∧
      simplify method x solve = .ok simplification ∧
      Agree method x (validate x) analysis simplification := by
  obtain ⟨validated, valid, count⟩ := validate_members x
  obtain ⟨analysis, parsed, analyzed, data⟩ := answers_parse.exists_response x
  obtain ⟨simplification, answer, simplified, data'⟩ :=
    (answers_simplify sound).exists_response x
  refine ⟨analysis, simplification, parsed, answer, validated, valid, count, analyzed, simplified,
    fun done => ?_, fun greedy done done' key listed => ?_⟩
  · obtain ⟨s, p, rfl, accepted, few, a, found, rfl⟩ := data done
    have number : (Document.text s).variableCount = p.names.length := by
      simp [Document.variableCount, Document.expression?, accepted, Except.toOption]
    obtain ⟨b, again, without, within⟩ := exists_analysis accepted few
    cases found.symm.trans again
    rw [at?_data, at?_simplification, number]
    by_cases many : 6 < p.names.length
    · rw [without many]
      exact iff_of_true rfl (by omega)
    · obtain ⟨q, _, some⟩ := within (Nat.not_lt.mp many)
      rw [some]
      exact iff_of_false (fun null => nomatch null) (by omega)
  · obtain ⟨s, p, rfl, accepted, few, a, found, rfl⟩ := data done
    obtain ⟨_, p', same, accepted', fewer, q, minimized, rfl⟩ := data' done'
    cases same
    cases accepted.symm.trans accepted'
    obtain ⟨b, again, _, within⟩ := exists_analysis accepted few
    cases found.symm.trans again
    obtain ⟨r, greedily, some⟩ := within fewer
    subst greedy
    cases minimized.symm.trans (Simplification.ofText_greedy s solve _ ▸ greedily)
    obtain ⟨d, member⟩ := q.exists_member key listed
    refine ⟨d, ?_, ?_⟩
    · rw [at?_data, at?_simplification, some, Document.at?_singleton]
      exact member false
    · rw [at?_data, Document.at?_singleton]
      exact member true

theorem requests_agree_conjunction :
    ∃ analysis simplification, parse (.text "A AND B") = .ok analysis ∧
      simplify .exact (.text "A AND B") .branchAndBound = .ok simplification ∧
      (validate (.text "A AND B")).body.member? "valid" = some (.bool true) ∧
      analysis.status = 200 ∧ simplification.status = 200 ∧
      analysis.body.at? ["data", "simplification"] ≠ some .null := by
  have sound : Method.exact = .exact → Solver.branchAndBound.Sound :=
    fun _ => Solver.branchAndBound_optimal.sound
  obtain ⟨analysis, simplification, parsed, simplified, agree⟩ :=
    requests_agree sound (.text "A AND B")
  have valid : (Document.text "A AND B").expression?.isSome = true := by decide +kernel
  have two : (Document.text "A AND B").variableCount = 2 := by decide +kernel
  have analyzed : analysis.status = 200 := by
    rw [agree.analyzed, statusFor, valid, two]
    decide
  refine ⟨analysis, simplification, parsed, simplified, valid ▸ agree.valid, analyzed, ?_, ?_⟩
  · rw [agree.simplified, statusFor, valid, two]
    decide
  · rw [Ne, agree.absent analyzed, two]
    decide

end Response

end Switching
