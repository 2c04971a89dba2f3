import Switching.Formula.Renumber
import Switching.Proofs.Fold
import Switching.Proofs.Grammar.Numbering
import Switching.Proofs.Identifiers
import Switching.Proofs.Trace

/-! Renumbering gives the nodes, each behind its operands, consecutive numbers and keeps all else. A
formula is given by its shape and the numbers of its nodes in that order, so one that was read from
tokens, which are numbered from 1 on as they are completed, is its own renumbering from 1. -/
namespace Switching

namespace Formula

variable {f g : Formula}

def consecutive (start : Int) (count : Nat) : List Int :=
  (List.range count).map fun k : Nat => start + k

theorem consecutive_append (start : Int) (m n : Nat) :
    consecutive start m ++ consecutive (start + m) n = consecutive start (m + n) := by
  unfold consecutive
  rw [List.range_add, List.map_append, List.map_map]
  refine congrArg _ (List.map_congr_left fun k _ => ?_)
  simp [Int.add_assoc]

theorem consecutive_concat (start : Int) (n : Nat) :
    consecutive start n ++ [start + n] = consecutive start (n + 1) := by
  simpa [consecutive] using consecutive_append start n 1

theorem consecutive_one (start : Int) : consecutive start 1 = [start] := by simp [consecutive]

theorem nodup_consecutive (start : Int) (n : Nat) : (consecutive start n).Nodup := by
  refine List.nodup_range.map fun k l same => ?_
  omega

theorem le_of_mem_consecutive {start i : Int} {n : Nat} (hi : i ∈ consecutive start n) :
    start ≤ i := by
  obtain ⟨k, _, rfl⟩ := List.mem_map.mp hi
  omega

theorem numbersFrom_eq (n count : Nat) : Reader.numbersFrom n count = consecutive n count := by
  unfold Reader.numbersFrom consecutive
  rw [List.range'_eq_map_range, List.map_map]
  rfl

theorem ids_eq (f : Formula) : f.ids = f.postorder.map id := by
  induction f with
  | var n i => rfl
  | const b i => rfl
  | not f i ih => simp [ids, postorder, id, ih]
  | gate k l r i left right => simp [ids, postorder, id, left, right]

theorem mem_ids {i : Int} : i ∈ f.ids ↔ ∃ g ∈ f.nodes, g.id = i := by
  rw [ids_eq, List.mem_map]
  simp only [(postorder_perm f).mem_iff]

theorem length_ids (f : Formula) : f.ids.length = f.nodeCount := by
  rw [ids_eq, List.length_map, nodeCount, (postorder_perm f).length_eq]

theorem nodeCount_shape (f : Formula) : f.shape.nodeCount = f.nodeCount := by
  induction f with
  | var n i => rfl
  | const b i => rfl
  | not f i ih => rw [shape, nodeCount_not, nodeCount_not, ih]
  | gate k l r i left right => rw [shape, nodeCount_gate, nodeCount_gate, left, right]

theorem eq_of_shape_of_ids (same : f.shape = g.shape) (numbers : f.ids = g.ids) : f = g := by
  induction f generalizing g with
  | var n i =>
    cases g <;> simp_all [shape, ids]
  | const b i =>
    cases g <;> simp_all [shape, ids]
  | not f i ih =>
    cases g with
    | not g j =>
      obtain ⟨inner, last⟩ := List.append_inj' numbers rfl
      cases last
      rw [ih (by simpa [shape] using same) inner]
    | _ => cases same
  | gate k l r i left right =>
    cases g with
    | gate k' l' r' j =>
      simp only [shape, gate.injEq, and_true] at same
      obtain ⟨rfl, sameLeft, sameRight⟩ := same
      obtain ⟨inner, last⟩ := List.append_inj' numbers rfl
      cases last
      have size : l.ids.length = l'.ids.length := by
        rw [length_ids, length_ids, ← nodeCount_shape l, sameLeft, nodeCount_shape]
      obtain ⟨front, back⟩ := List.append_inj inner size
      rw [left sameLeft front, right sameRight back]
    | _ => cases same

/-- A formula is numbered anew from a number on: what comes of it, and the next free number. -/
structure Renumbers (f : Formula) (start : Int) (r : Formula × Int) : Prop where
  shape : r.1.shape = f.shape
  ids : r.1.ids = consecutive start f.nodeCount
  next : r.2 = start + f.nodeCount

section Steps

variable {k : Gate} {i start : Int} {r s : Formula × Int}

theorem renumbers_leaf (shape : g.shape = f.shape) (ids : g.ids = [start])
    (count : f.nodeCount = 1) : Renumbers f start (g, start + 1) where
  shape := shape
  ids := by rw [ids, count, consecutive_one]
  next := by rw [count, Int.natCast_one]

theorem Renumbers.not (h : Renumbers f start r) :
    Renumbers (.not f i) start (.not r.1 r.2, r.2 + 1) where
  shape := by rw [Formula.shape, h.shape, Formula.shape]
  ids := by rw [Formula.ids, h.ids, h.next, consecutive_concat, nodeCount_not]
  next := by
    rw [h.next, nodeCount_not, Int.natCast_add, Int.natCast_one, Int.add_assoc]

theorem Renumbers.gate (left : Renumbers f start r) (right : Renumbers g r.2 s) :
    Renumbers (.gate k f g i) start (.gate k r.1 s.1 s.2, s.2 + 1) where
  shape := by rw [Formula.shape, left.shape, right.shape, Formula.shape]
  ids := by
    rw [Formula.ids, left.ids, right.ids, right.next, left.next, consecutive_append, Int.add_assoc,
      ← Int.natCast_add, consecutive_concat, nodeCount_gate]
  next := by
    rw [right.next, left.next, nodeCount_gate]
    omega

end Steps

theorem renumbers_combine (f : Formula) (start : Int) :
    Renumbers f start ((f.combine renumberSteps).run start) := by
  induction f generalizing start with
  | var n i => exact renumbers_leaf rfl rfl rfl
  | const b i => exact renumbers_leaf rfl rfl rfl
  | not f i ih => exact (ih start).not
  | gate k l r i left right => exact (left start).gate (right _)

theorem renumbers_renumberFrom (f : Formula) (start : Int) :
    (f.renumberFrom start).shape = f.shape ∧
      (f.renumberFrom start).ids = consecutive start f.nodeCount := by
  rw [renumberFrom, foldM_eq_combine]
  exact ⟨(renumbers_combine f start).shape, (renumbers_combine f start).ids⟩

theorem mem_nodes_self (f : Formula) : f ∈ f.nodes := by
  cases f with
  | var n i => exact List.mem_cons_self ..
  | const b i => exact List.mem_cons_self ..
  | not f i => exact List.mem_cons_self ..
  | gate k l r i => exact List.mem_cons_self ..

theorem maxId_greatest (f : Formula) :
    (∃ g ∈ f.nodes, g.id = f.maxId) ∧ ∀ g ∈ f.nodes, g.id ≤ f.maxId := by
  have root : f.id ∈ f.nodes.map id := List.mem_map_of_mem f.mem_nodes_self
  obtain ⟨m, greatest⟩ := Option.isSome_iff_exists.mp (List.isSome_max?_of_mem root)
  obtain ⟨member, above⟩ := List.max?_eq_some_iff.mp greatest
  have folded : f.maxId = m := by
    have mapped : f.maxId = (f.nodes.map id).foldl max f.id := by rw [List.foldl_map, maxId]
    rw [mapped, List.foldl_max, greatest, Option.getD_some]
    exact max_eq_right (above _ root)
  rw [folded]
  exact ⟨List.mem_map.mp member, fun g hg => above _ (List.mem_map_of_mem hg)⟩

theorem ids_of_ofText {text : String} {p : Parsed} (accepted : ofText text = .ok p) :
    p.formula.ids = consecutive 1 p.formula.nodeCount := by
  obtain ⟨tokens, _, parsed⟩ := exists_scan accepted
  obtain ⟨rest, answer, _⟩ := exists_read parsed
  have numbers : Reader.Numbers (Reader.ofTokens tokens) p.formula rest :=
    (Reader.reads_iff.mpr answer).numbers rfl
  exact numbers.ids.trans (numbersFrom_eq ..)

/-- Renumbering from a number on changes nothing but the numbers, and these go on from there, one
for each node behind its operands. By default they start above the greatest number there was, so
none of the old ones is used again. The formula of an accepted text is numbered from 1 on. -/
theorem renumber_fresh :
    (∀ (f : Formula) (start : Int),
      (f.renumberFrom start).same f = true ∧
      (f.renumberFrom start).postorder.map id =
        (List.range f.nodeCount).map (fun k : Nat => start + k) ∧
      ((f.renumberFrom start).postorder.map id).Nodup) ∧
    (∀ f : Formula, ∃ m, (∃ g ∈ f.nodes, g.id = m) ∧ (∀ g ∈ f.nodes, g.id ≤ m) ∧
      f.renumber = f.renumberFrom (m + 1) ∧ ∀ g ∈ f.nodes, ∀ h ∈ f.renumber.nodes, h.id ≠ g.id) ∧
    ∀ text p, ofText text = .ok p → p.formula.renumberFrom 1 = p.formula := by
  refine ⟨fun f start => ?_, fun f => ?_, fun text p accepted => ?_⟩
  · obtain ⟨shape, ids⟩ := renumbers_renumberFrom f start
    rw [← ids_eq, ids]
    exact ⟨same_iff.mpr shape, rfl, nodup_consecutive ..⟩
  · obtain ⟨some, above⟩ := maxId_greatest f
    refine ⟨f.maxId, some, above, rfl, fun g hg h hh same => ?_⟩
    have new : h.id ∈ f.renumber.ids := mem_ids.mpr ⟨h, hh, rfl⟩
    rw [renumber, (renumbers_renumberFrom f _).2] at new
    have higher := le_of_mem_consecutive new
    have lower := above g hg
    omega
  · obtain ⟨shape, ids⟩ := renumbers_renumberFrom p.formula 1
    exact eq_of_shape_of_ids shape (ids.trans (ids_of_ofText accepted).symm)

theorem renumber_fresh_primed :
    ∃ p, ofText "~A'B" = .ok p ∧ p.formula.renumberFrom 1 = p.formula ∧
      (p.formula.renumberFrom (-2)).postorder.map id = [-2, -1, 0, 1, 2] := by
  let p : Parsed :=
    ⟨.gate .and (.not (.not (.var "A" 1) 2) 3) (.var "B" 4) 5, ["A", "B"]⟩
  have accepted : ofText "~A'B" = .ok p := by decide +kernel
  obtain ⟨_, numbers, _⟩ := renumber_fresh.1 p.formula (-2)
  exact ⟨p, accepted, renumber_fresh.2.2 _ p accepted, numbers.trans (by decide)⟩

end Formula

end Switching
