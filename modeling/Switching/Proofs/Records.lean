import Switching.Proofs.CommandLine
import Switching.Proofs.Renumber

/-! What a trace says of every node. Under a number it has the value of the last node, in the order
in which nodes are completed, that has the number. The nodes of an accepted text have numbers of
their own, so its trace has one entry for each of them, with the value of the formula from there. -/
namespace Switching

/-- A trace has one entry for each node of a formula, with its number and its value. -/
structure Trace.Records (t : Trace) (f : Formula) (a : Assignment) : Prop where
  numbers : (t.entries.map Prod.fst).Perm (f.nodes.map Formula.id)
  distinct : (t.entries.map Prod.fst).Nodup
  count : t.entries.length = f.nodeCount
  values : ∀ g ∈ f.nodes, ∃ b, g.evaluate a = .ok b ∧ (g.id, b) ∈ t.entries

namespace Formula

variable {f g : Formula} {v : String → Bool} {front back : List Formula}

theorem names_subset_of_mem_nodes (hg : g ∈ f.nodes) : g.names ⊆ f.names := by
  intro x hx
  induction f with
  | var n i =>
    cases List.mem_singleton.mp hg
    exact hx
  | const b i =>
    cases List.mem_singleton.mp hg
    exact hx
  | not f i ih =>
    rcases List.mem_cons.mp (nodes_not f i ▸ hg) with rfl | hg
    · exact hx
    · exact mem_names_not.mpr (ih hg)
  | gate k l r i left right =>
    rcases List.mem_cons.mp (nodes_gate k l r i ▸ hg) with rfl | hg
    · exact hx
    · rcases List.mem_append.mp hg with hg | hg
      · exact mem_names_gate.mpr (.inl (left hg))
      · exact mem_names_gate.mpr (.inr (right hg))

theorem value?_of_last (split : f.postorder = front ++ g :: back)
    (last : ∀ h ∈ back, h.id ≠ g.id) :
    (f.traceOnto v .empty).value? g.id = some (g.value v) := by
  have none : back.reverse.find? (fun h => g.id == h.id) = none := by
    refine List.find?_eq_none.mpr fun h hh => ?_
    have other := last h (List.mem_reverse.mp hh)
    simpa using other.symm
  rw [value?_traceOnto, split]
  simp [none]

theorem value?_of_nodup (distinct : f.ids.Nodup) (hg : g ∈ f.nodes) :
    (f.traceOnto v .empty).value? g.id = some (g.value v) := by
  obtain ⟨front, back, split⟩ := List.append_of_mem ((postorder_perm f).mem_iff.mpr hg)
  refine value?_of_last split fun h hh same => ?_
  rw [ids_eq, split, List.map_append, List.map_cons] at distinct
  have fresh := (List.nodup_cons.mp (List.nodup_append.mp distinct).2.1).1
  exact fresh (same ▸ List.mem_map_of_mem hh)

theorem evaluate_node {a : Assignment} (defined : a.Defines f.names) (hg : g ∈ f.nodes) :
    g.evaluate a = .ok (g.value fun x => (a.value? x).getD false) :=
  evaluate_eq fun x hx => defined.value?_eq x (names_subset_of_mem_nodes hg hx)

theorem unbound?_of_defined {a : Assignment} (defined : a.Defines f.names) : f.unbound? a = none :=
  unbound?_eq_none.mpr fun x hx => Option.isSome_iff_exists.mp (defined x hx)

theorem evaluateTraced_of_defined {a : Assignment} (defined : a.Defines f.names) :
    let v := fun x => (a.value? x).getD false
    f.evaluateTraced a = .ok (f.value v, f.traceOnto v .empty) := by
  rw [evaluateTraced_eq, unbound?_of_defined defined]

theorem records_of_nodup {a : Assignment} (defined : a.Defines f.names) (distinct : f.ids.Nodup) :
    (f.traceOnto (fun x => (a.value? x).getD false) .empty).Records f a := by
  let v := fun x => (a.value? x).getD false
  let t := f.traceOnto v .empty
  have own : (f.nodes.map id).Nodup := by
    rw [ids_eq] at distinct
    exact ((postorder_perm f).map id).nodup_iff.mp distinct
  have numbers : (t.entries.map Prod.fst).Perm (f.nodes.map id) := by
    refine (List.perm_ext_iff_of_nodup t.nodup_entries own).mpr fun k => ?_
    rw [Trace.mem_numbers_entries, exists_value_iff, List.mem_map]
  have count : t.entries.length = f.nodeCount := by
    simpa [nodeCount] using numbers.length_eq
  refine ⟨numbers, t.nodup_entries, count, fun g hg => ⟨_, evaluate_node defined hg, ?_⟩⟩
  exact Trace.mem_entries.mpr (value?_of_nodup distinct hg)

theorem traceListing_of_nodup {a : Assignment} (defined : a.Defines f.names)
    (distinct : f.ids.Nodup) :
    let v := fun x => (a.value? x).getD false
    CommandLine.traceListing f a = .ok (lines (["Evaluation trace:"] ++
      (f.nodes.map fun g => CommandLine.nodeText (g.value v) g) ++
        ["Result: " ++ bitText (f.value v)])) := by
  intro v
  have listed : (f.nodes.map fun g => CommandLine.nodeText
        (((f.traceOnto v .empty).value? g.id).getD false) g) =
      f.nodes.map fun g => CommandLine.nodeText (g.value v) g :=
    List.map_congr_left fun g hg => by rw [value?_of_nodup distinct hg, Option.getD_some]
  rw [CommandLine.traceListing_eq, unbound?_of_defined defined, CommandLine.traceText, listed]

/-- A trace of the formula of an accepted text has one entry for each node, and the listing of the
nodes finds them all. In the trace of any formula an entry is that of the last node with its
number. -/
theorem evaluateTraced_records :
    (∀ (text : String) (p : Parsed) (a : Assignment), ofText text = .ok p →
        a.Defines p.formula.names →
      ∃ b t, p.formula.evaluateTraced a = .ok (b, t) ∧ p.formula.evaluate a = .ok b ∧
        t.Records p.formula a ∧
        ∃ value : Formula → Bool, (∀ g ∈ p.formula.nodes, g.evaluate a = .ok (value g)) ∧
          CommandLine.traceListing p.formula a = .ok (lines (["Evaluation trace:"] ++
            (p.formula.nodes.map fun g => CommandLine.nodeText (value g) g) ++
              ["Result: " ++ bitText b]))) ∧
    ∀ (f : Formula) (a : Assignment), a.Defines f.names →
      ∃ b t, f.evaluateTraced a = .ok (b, t) ∧ f.evaluate a = .ok b ∧
        (t.entries.map Prod.fst).Nodup ∧
        (∀ k, k ∈ t.entries.map Prod.fst ↔ ∃ g ∈ f.nodes, g.id = k) ∧
        ∀ front g back, f.postorder = front ++ g :: back → (∀ h ∈ back, h.id ≠ g.id) →
          ∃ c, g.evaluate a = .ok c ∧ (g.id, c) ∈ t.entries := by
  constructor
  · intro text p a accepted defined
    have distinct : p.formula.ids.Nodup := by
      rw [ids_of_ofText accepted]
      exact nodup_consecutive ..
    exact ⟨_, _, evaluateTraced_of_defined defined, evaluate_node defined p.formula.mem_nodes_self,
      records_of_nodup defined distinct, _, fun g hg => evaluate_node defined hg,
      traceListing_of_nodup defined distinct⟩
  · intro f a defined
    refine ⟨_, _, evaluateTraced_of_defined defined, evaluate_node defined f.mem_nodes_self,
      Trace.nodup_entries _, fun k => ?_, fun front g back split last => ?_⟩
    · rw [Trace.mem_numbers_entries, exists_value_iff]
    · have hg : g ∈ f.nodes := (postorder_perm f).mem_iff.mp (by simp [split])
      exact ⟨_, evaluate_node defined hg, Trace.mem_entries.mpr (value?_of_last split last)⟩

/-- The trace of a product with a doubly negated factor has five entries. Where the number of a
variable is given to its negation as well, the value of the negation stands under it. -/
theorem evaluateTraced_records_repeated :
    (∃ p b t, ofText "~A'B" = .ok p ∧
      p.formula.evaluateTraced (.ofList [("A", true), ("B", true)]) = .ok (b, t) ∧
      t.entries.length = 5) ∧
    let f : Formula := .gate .and (.var "A" 1) (.not (.var "A" 1) 1) 2
    ∃ b t, f.evaluateTraced (.ofList [("A", true)]) = .ok (b, t) ∧ (1, false) ∈ t.entries := by
  constructor
  · let p : Parsed :=
      ⟨.gate .and (.not (.not (.var "A" 1) 2) 3) (.var "B" 4) 5, ["A", "B"]⟩
    have accepted : ofText "~A'B" = .ok p := by decide +kernel
    have defined : (Assignment.ofList [("A", true), ("B", true)]).Defines p.formula.names := by
      decide
    obtain ⟨b, t, traced, -, records, -⟩ := evaluateTraced_records.1 _ p _ accepted defined
    exact ⟨p, b, t, accepted, traced, records.count⟩
  · intro f
    let negation : Formula := .not (.var "A" 1) 1
    have defined : (Assignment.ofList [("A", true)]).Defines f.names := by decide
    have split : f.postorder = [.var "A" 1, .var "A" 1] ++ negation :: [f] := rfl
    have last : ∀ h ∈ [f], h.id ≠ negation.id := by decide
    obtain ⟨b, t, traced, -, -, -, final⟩ := evaluateTraced_records.2 f _ defined
    obtain ⟨c, value, entry⟩ := final _ _ _ split last
    have computed : negation.evaluate (.ofList [("A", true)]) = .ok false := by decide +kernel
    cases value.symm.trans computed
    exact ⟨b, t, traced, entry⟩

end Formula

end Switching
