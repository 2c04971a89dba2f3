import Switching.Proofs.Grammar.Writing
import Switching.Proofs.Identifiers

/-! An accepted text written out in keywords and read again. A chain of operators needs no
parentheses and is accepted at any length, but its formula leans to the left and is written with a
pair of parentheses for each gate, so the text of a long chain is refused for its nesting. -/
namespace Switching

namespace Formula

variable {text : String} {p : Parsed} {x : String} {xs : List String}

theorem gateDepth_shape (f : Formula) : f.shape.gateDepth = f.gateDepth := by
  induction f with
  | var x i => rfl
  | const b i => rfl
  | not f i ih => exact ih
  | gate k l r i left right => rw [shape, gateDepth, gateDepth, left, right]

theorem gateDepth_joined (k : Gate) (b : Bool) {f : Formula} {fs : List Formula}
    (lower : ∀ g ∈ fs, g.gateDepth ≤ f.gateDepth) :
    (Implicant.joined k b (f :: fs)).gateDepth = f.gateDepth + fs.length := by
  induction fs generalizing f with
  | nil => rfl
  | cons g gs ih =>
    have first := lower g (List.mem_cons_self ..)
    have level : (gate k f g 0).gateDepth = f.gateDepth + 1 := by
      rw [gateDepth, Nat.max_eq_left first]
    have leaning : Implicant.joined k b (f :: g :: gs) =
      Implicant.joined k b (gate k f g 0 :: gs) := rfl
    rw [leaning, ih, level, List.length_cons]
    · omega
    · intro h hh
      have below := lower h (List.mem_cons_of_mem _ hh)
      omega

/-- The keyword text of an accepted text is read back as the same formula with the same names, if
there are no more gates on any way from the root to a leaf than parentheses may be nested. Else it
is refused for its nesting. -/
theorem ofText_infixText (accepted : ofText text = .ok p) :
    (p.formula.gateDepth ≤ maxDepth →
      ∃ q, ofText p.formula.infixText = .ok q ∧ q.formula.same p.formula = true ∧
        q.names = p.names) ∧
    (maxDepth < p.formula.gateDepth →
      ∃ t d, ofText p.formula.infixText = .error (.nestedTooDeeply t) ∧
        (Fault.nestedTooDeeply t).diagnostic? = some d ∧ d.label = "Syntax Error" ∧
        d.message = "Expression is nested too deeply") := by
  obtain ⟨whole, cut⟩ :=
    ofText_render_of_readable Notation.readable_keywords (isIdentifier_of_ofText accepted)
  constructor
  · intro within
    obtain ⟨q, read, shape, names⟩ := whole within
    exact ⟨q, read, same_iff.mpr shape, names.trans (names_of_ofText accepted).symm⟩
  · intro beyond
    obtain ⟨t, refused⟩ := cut beyond
    exact ⟨t, _, refused, rfl, rfl, rfl⟩

theorem ofText_infixText_implication :
    ∃ p, ofText "NOT a + B'C" = .ok p ∧ p.formula.infixText = "(NOT A OR (NOT B AND C))" ∧
      ∃ q, ofText p.formula.infixText = .ok q ∧ q.formula.same p.formula = true ∧
        q.names = p.names := by
  let p : Parsed := ⟨.gate .or (.not (.var "A" 1) 2)
    (.gate .and (.not (.var "B" 3) 4) (.var "C" 5) 6) 7, ["A", "B", "C"]⟩
  have accepted : ofText "NOT a + B'C" = .ok p := by decide +kernel
  obtain ⟨whole, _⟩ := ofText_infixText accepted
  exact ⟨p, accepted, by decide +kernel, whole (by decide)⟩

theorem ofText_sum (names : ∀ y ∈ x :: xs, IsIdentifier y) :
    ∃ p, ofText (" + ".intercalate (x :: xs)) = .ok p ∧ p.formula.gateDepth = xs.length ∧
      ∀ y ∈ p.formula.names, IsIdentifier y := by
  let pieces := xs.map fun y => (y, var y 0)
  have texts : pieces.map Prod.fst = xs := by simp [pieces, Function.comp_def]
  have first := (Writes.name (names x (List.mem_cons_self ..)) 0).chain .sum
  have each : ∀ piece ∈ pieces, Writes .operand piece.1 piece.2 0 := by
    intro piece member
    obtain ⟨y, hy, rfl⟩ := List.mem_map.mp member
    exact Writes.name (names y (List.mem_cons_of_mem _ hy)) 0
  have whole := first.sum each
  rw [texts] at whole
  obtain ⟨p, accepted, shape, _⟩ := whole.ofText (Nat.zero_le _)
  refine ⟨p, accepted, ?_, isIdentifier_of_ofText accepted⟩
  have leaves : ∀ g ∈ pieces.map Prod.snd, g.gateDepth ≤ (var x 0).gateDepth := by
    simp [pieces, gateDepth]
  rw [← gateDepth_shape, shape, gateDepth_joined _ _ leaves]
  simp [pieces, gateDepth]

theorem ofText_infixText_sum (names : ∀ y ∈ x :: xs, IsIdentifier y)
    (long : maxDepth < xs.length) :
    ∃ p, ofText (" + ".intercalate (x :: xs)) = .ok p ∧
      ∃ t, ofText p.formula.infixText = .error (.nestedTooDeeply t) := by
  obtain ⟨p, accepted, depth, identifiers⟩ := ofText_sum names
  obtain ⟨_, cut⟩ := ofText_render_of_readable Notation.readable_keywords identifiers
  exact ⟨p, accepted, cut (depth ▸ long)⟩

theorem ofText_infixText_chain :
    ∃ p, ofText (" + ".intercalate (List.replicate 102 "A")) = .ok p ∧
      ¬∃ q, ofText p.formula.infixText = .ok q := by
  have names : ∀ y ∈ "A" :: List.replicate 101 "A", IsIdentifier y := by
    intro y hy
    rw [List.eq_of_mem_replicate (n := 102) hy]
    exact ⟨by decide, by decide, by decide⟩
  obtain ⟨p, accepted, t, refused⟩ := ofText_infixText_sum names (by decide)
  refine ⟨p, accepted, ?_⟩
  rintro ⟨q, read⟩
  rw [refused] at read
  cases read

end Formula

end Switching
