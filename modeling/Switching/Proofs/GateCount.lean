import Switching.Proofs.Counting
import Switching.Proofs.Simplification

/-! The gates of a formula. They are counted word by word, and the counts add up to the nodes that
are operators. A sum of products has the gates that its patterns promise: one inverter for every
zero, one gate less than literals in every product, and one less than products in the sum. -/
namespace Switching

namespace Formula

theorem total_tally (count : String → Nat) (words : List String) :
    total ((words.filterMap fun w => if count w = 0 then none else some (w, count w)).map
      Prod.snd) = total (words.map count) := by
  induction words with
  | nil => rfl
  | cons w ws ih =>
    by_cases absent : count w = 0
    · simp [absent, ih]
    · simp [absent, ih]

theorem word_mem_of_operator? {f : Formula} {word : String} (h : f.operator? = some word) :
    word ∈ "NOT" :: Gate.all.map Gate.name := by
  cases f with
  | var n i => cases h
  | const b i => cases h
  | not f i =>
    cases h
    exact List.mem_cons_self ..
  | gate k l r i =>
    cases h
    exact List.mem_cons_of_mem _ (List.mem_map_of_mem k.mem_all)

theorem gateCount_eq (f : Formula) : f.gateCount = (f.nodes.filterMap operator?).length := by
  have apart : ("NOT" :: Gate.all.map Gate.name).Nodup := by decide
  apply (total_tally _ _).trans
  apply total_count apart
  intro word listed
  obtain ⟨g, _, operator⟩ := List.mem_filterMap.mp listed
  exact word_mem_of_operator? operator

@[simp]
theorem gateCount_var (n : String) (i : Int) : (var n i).gateCount = 0 := by
  simp [gateCount_eq, nodes, nodesOnto, operator?]

@[simp]
theorem gateCount_const (b : Bool) (i : Int) : (const b i).gateCount = 0 := by
  simp [gateCount_eq, nodes, nodesOnto, operator?]

@[simp]
theorem gateCount_not (f : Formula) (i : Int) : (not f i).gateCount = f.gateCount + 1 := by
  simp [gateCount_eq, operator?]

@[simp]
theorem gateCount_gate (k : Gate) (l r : Formula) (i : Int) :
    (gate k l r i).gateCount = l.gateCount + r.gateCount + 1 := by
  simp [gateCount_eq, operator?]

end Formula

namespace Implicant

variable {names : List String} {i : Implicant}

theorem gateCount_foldl (k : Gate) (f : Formula) (fs : List Formula) :
    (fs.foldl (fun g h => .gate k g h 0) f).gateCount =
      f.gateCount + fs.length + total (fs.map Formula.gateCount) := by
  induction fs generalizing f with
  | nil => rfl
  | cons g gs ih =>
    simp only [List.foldl_cons, ih, Formula.gateCount_gate, List.length_cons, List.map_cons,
      total_cons]
    omega

theorem gateCount_joined (k : Gate) (b : Bool) (fs : List Formula) :
    (joined k b fs).gateCount = (fs.length - 1) + total (fs.map Formula.gateCount) := by
  cases fs with
  | nil => simp [joined]
  | cons f fs =>
    simp only [joined, gateCount_foldl, List.length_cons, List.map_cons, total_cons]
    omega

theorem total_literalFormulas (length : i.pattern.length = names.length) :
    total ((i.literalFormulas names).map Formula.gateCount) = i.pattern.zeros := by
  unfold literalFormulas Pattern.zeros
  rw [List.map_map]
  generalize i.pattern = p at length
  induction p generalizing names with
  | nil => simp [Pattern.literalsOver]
  | cons t ts ih =>
    cases names with
    | nil => cases length
    | cons name names =>
      have rest := ih (Nat.succ.inj length)
      cases t with
      | zero =>
        simp [rest, Nat.add_comm]
      | one => simpa using rest
      | dash => simpa using rest

theorem gateCount_toFormula (length : i.pattern.length = names.length) :
    (i.toFormula names).gateCount = (i.literals - 1) + i.pattern.zeros := by
  have factors : (i.literalFormulas names).length = i.literals := by
    simp [literalFormulas, Pattern.length_literalsOver length, literals]
  rw [toFormula, gateCount_joined, factors, total_literalFormulas length]

theorem sumGates_eq {is : List Implicant} (length : ∀ i ∈ is, i.pattern.length = names.length) :
    sumGates is = (sumFormula is names).gateCount := by
  have terms : (is.map (·.toFormula names)).map Formula.gateCount =
      is.map fun i => (i.literals - 1) + i.pattern.zeros := by
    rw [List.map_map]
    exact List.map_congr_left fun i hi => gateCount_toFormula (length i hi)
  rw [sumGates, sumFormula, gateCount_joined, terms, List.length_map]

end Implicant

namespace Minimization

theorem lettered_defaultNames {width : Nat} (few : width ≤ 6) :
    ∀ x ∈ defaultNames width, Lettered x := by
  decide +revert

theorem sumGates_of_ofOnSet {solve : Solver} {method : Method} {names : List String}
    {onSet : List Nat} {r : Minimization} (set : IsOnSet names.length onSet)
    (letters : ∀ x ∈ names, Lettered x) (answer : ofOnSet method names onSet solve = .ok r) :
    Implicant.sumGates r.chosen = r.toFormula.gateCount := by
  obtain ⟨b, rfl⟩ | ⟨part, c, found, named, chosen, text⟩ := of_ofOnSet answer
  · cases b with
    | false => rfl
    | true => rfl
  · have prime : ∀ i ∈ c.chosen, i.pattern.IsPrime names.length onSet :=
      fun i hi => set.isPrime_of_mem (cover_subset found hi)
    have depends : ∀ i ∈ c.chosen, i.pattern.literalsOver names ≠ [] := fun i hi =>
      literals_ne_nil_of_isPrime (set.exists_missing part) (prime i hi)
    have sum : r.expression ≠ "1" := text ▸ sumText_ne_one letters depends
    rw [toFormula, if_neg sum, named, chosen]
    exact Implicant.sumGates_eq fun i hi => (prime i hi).length

/-- The gates of a sum of products are those of the formula that the sum is rebuilt as, for any
products over the inputs and for every answer of a minimization. Given names have to begin with a
letter. -/
theorem sumGates_rebuilt :
    (∀ (is : List Implicant) (names : List String),
      (∀ i ∈ is, i.pattern.length = names.length) →
      Implicant.sumGates is = (Implicant.sumFormula is names).gateCount) ∧
    ∀ (method : Method) (minterms : List Int) (width : Int) (names? : Option (List String))
      (solve : Solver) (r : Minimization),
      (∀ names, names? = some names → ∀ x ∈ names, Lettered x) →
      minimize method minterms width names? solve = .ok r →
      Implicant.sumGates r.chosen = r.toFormula.gateCount := by
  constructor
  · exact fun is names length => Implicant.sumGates_eq length
  · intro method minterms width names? solve r letters answer
    obtain ⟨names, given, length, few, range, answer⟩ := of_minimize answer
    apply sumGates_of_ofOnSet (isOnSet_onSetOf range) _ answer
    cases names? with
    | none =>
      cases given
      exact lettered_defaultNames (by omega)
    | some names =>
      cases given
      exact letters names rfl

theorem sumGates_rebuilt_exclusive :
    let is : List Implicant := ["0-", "--"].map fun s => ⟨.ofText s, [], false⟩
    (Implicant.sumFormula is ["A", "B"]).gateCount = 2 ∧
    ∃ r, minimize .greedy [2, 1, 2] 2 (some ["a", "b"]) .branchAndBound = .ok r ∧
      r.toFormula.gateCount = 5 := by
  intro is
  constructor
  · have length : ∀ i ∈ is, i.pattern.length = ["A", "B"].length := by decide
    have gates : Implicant.sumGates is = 2 := by decide
    rw [← sumGates_rebuilt.1 is _ length, gates]
  · have counted : (minimize .greedy [2, 1, 2] 2 (some ["a", "b"]) .branchAndBound).map
        (fun r => Implicant.sumGates r.chosen) = .ok 5 := by decide +kernel
    have letters : ∀ names, some ["a", "b"] = some names → ∀ x ∈ names, Lettered x := by
      rintro names ⟨⟩
      decide
    cases answer : minimize .greedy [2, 1, 2] 2 (some ["a", "b"]) .branchAndBound with
    | error cause =>
      rw [answer] at counted
      cases counted
    | ok r =>
      rw [answer] at counted
      have gates := sumGates_rebuilt.2 _ _ _ _ _ _ letters answer
      exact ⟨r, rfl, gates.symm.trans (Except.ok.inj counted)⟩

end Minimization

end Switching
