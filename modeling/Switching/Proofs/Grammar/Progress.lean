import Switching.Proofs.Grammar.Reading

/-! How a reader goes on. Whatever a stage of reading gives, a formula or a fault, the reader stands in
the same list as before and not before its place, and no parenthesis is closed that was open. -/
namespace Switching

namespace Reader

variable {r s rest : Reader}

def extent (r : Reader) : Nat := r.index + r.ahead.length

/-- The second reader stands in the same list as the first one, not before it, and is as deep or
deeper. -/
structure Leads (r rest : Reader) : Prop where
  list : rest.past.reverse ++ rest.ahead = r.past.reverse ++ r.ahead
  stop : rest.stop = r.stop
  last : rest.last = r.last
  forward : r.index ≤ rest.index
  deeper : r.depth ≤ rest.depth

theorem Leads.refl (r : Reader) : Leads r r := ⟨rfl, rfl, rfl, Nat.le_refl _, Nat.le_refl _⟩

theorem Leads.trans (first : Leads r s) (second : Leads s rest) : Leads r rest where
  list := second.list.trans first.list
  stop := second.stop.trans first.stop
  last := second.last.trans first.last
  forward := Nat.le_trans first.forward second.forward
  deeper := Nat.le_trans first.deeper second.deeper

theorem leads_advance (r : Reader) : Leads r r.advance := by
  unfold advance
  split
  · exact .refl r
  · rename_i t ts ahead
    refine ⟨?_, rfl, rfl, Nat.le_succ _, Nat.le_refl _⟩
    rw [ahead, List.reverse_cons, List.append_assoc]
    rfl

theorem leads_skip (n : Nat) (r : Reader) : Leads r (r.skip n) := by
  induction n generalizing r with
  | zero => exact .refl r
  | succ n ih => exact (leads_advance r).trans (ih r.advance)

theorem leads_bump (r : Reader) : Leads r r.bump :=
  ⟨rfl, rfl, rfl, Nat.le_refl _, Nat.le_refl _⟩

theorem leads_note (name : String) (r : Reader) : Leads r (r.note name) :=
  ⟨rfl, rfl, rfl, Nat.le_refl _, Nat.le_refl _⟩

theorem leads_negate (n : Nat) (f : Formula) (r : Reader) : Leads r (negate n f r).2 := by
  induction n generalizing f r with
  | zero => exact .refl r
  | succ n ih => exact (leads_bump r).trans (ih _ r.bump)

theorem leads_leaf (leafOf : Int → Formula) (r : Reader) : Leads r (leaf leafOf r).2 :=
  (leads_advance r).trans (leads_bump r.advance)

theorem leads_deepen (r : Reader) : Leads r r.deepen :=
  ⟨rfl, rfl, rfl, Nat.le_refl _, Nat.le_succ _⟩

/-- A parenthesis was counted before, so that the depth does not sink below the one in front. -/
theorem Leads.surface (h : Leads r.deepen rest) : Leads r rest.surface where
  list := h.list
  stop := h.stop
  last := h.last
  forward := h.forward
  deeper := Nat.le_sub_one_of_lt h.deeper

theorem leads_operator (written : Bool) (r : Reader) :
    Leads r (if written then r.advance else r) := by
  cases written
  · exact .refl r
  · exact leads_advance r

theorem Reads.leads {stage : Stage} {o : Except Fault Formula × Reader} (h : Reads stage r o) :
    Leads r o.2 := by
  induction h with
  | chain _ _ first more => exact first.trans more
  | chainFault _ first => exact first
  | finished => exact .refl _
  | joined _ _ _ _ next more =>
    exact (((leads_operator _ _).trans next).trans (leads_bump _)).trans more
  | joinedFault _ _ _ next => exact (leads_operator _ _).trans next
  | operand _ inner =>
    exact (((leads_skip _ _).trans inner).trans (leads_skip _ _)).trans (leads_negate _ _ _)
  | operandFault _ inner => exact (leads_skip _ _).trans inner
  | name => exact (leads_leaf _ _).trans (leads_note _ _)
  | @constant r t => exact leads_leaf (.const (t.text == "1")) r
  | tooDeep => exact (leads_advance _).trans (leads_deepen _)
  | enclosed _ _ _ _ _ inner =>
    exact ((leads_advance _).trans inner.surface).trans (leads_advance _)
  | unclosed _ _ _ _ _ inner => exact (leads_advance _).trans inner.surface
  | enclosedFault _ _ _ _ inner => exact ((leads_advance _).trans (leads_deepen _)).trans inner
  | missing => exact .refl _

theorem Leads.extent (h : Leads r rest) : rest.extent = r.extent := by
  have lengths := congrArg List.length h.list
  rw [List.length_append, List.length_append, List.length_reverse, List.length_reverse] at lengths
  exact lengths

end Reader

end Switching
