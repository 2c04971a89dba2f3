import Switching.Proofs.Grammar.Soundness

/-! How nodes are numbered. A node is numbered when it is complete, behind its operands, so what one
step reads has consecutive numbers from the next free one on, and that one moves behind them. -/
namespace Switching

namespace Formula

def ids : Formula → List Int
  | var _ i | const _ i => [i]
  | not f i => f.ids ++ [i]
  | gate _ l r i => l.ids ++ r.ids ++ [i]

@[simp]
theorem nodeCount_not (f : Formula) (i : Int) : (not f i).nodeCount = f.nodeCount + 1 := by
  rw [nodeCount, nodes_not, List.length_cons, nodeCount]

@[simp]
theorem nodeCount_gate (k : Gate) (l r : Formula) (i : Int) :
    (gate k l r i).nodeCount = l.nodeCount + r.nodeCount + 1 := by
  rw [nodeCount, nodes_gate, List.length_cons, List.length_append, nodeCount, nodeCount]

end Formula

namespace Reader

variable {r s rest : Reader} {f g : Formula} {k : Gate}

@[simp]
theorem nextId_advance (r : Reader) : r.advance.nextId = r.nextId := by
  unfold advance
  split <;> rfl

@[simp]
theorem nextId_skip (n : Nat) (r : Reader) : (r.skip n).nextId = r.nextId := by
  induction n generalizing r with
  | zero => rfl
  | succ n ih => exact (ih r.advance).trans (nextId_advance r)

def numbersFrom (n count : Nat) : List Int := (List.range' n count).map fun i : Nat => (i : Int)

theorem numbersFrom_append (n a b : Nat) :
    numbersFrom n a ++ numbersFrom (n + a) b = numbersFrom n (a + b) := by
  unfold numbersFrom
  rw [← List.map_append, List.range'_append_1]

theorem numbersFrom_concat (n a : Nat) :
    numbersFrom n a ++ [((n + a : Nat) : Int)] = numbersFrom n (a + 1) :=
  numbersFrom_append n a 1

structure Numbers (r : Reader) (f : Formula) (rest : Reader) : Prop where
  ids : f.ids = numbersFrom r.nextId f.nodeCount
  nextId : rest.nextId = r.nextId + f.nodeCount

theorem Numbers.of_nextId {t : Reader} (h : Numbers s f t) (before : s.nextId = r.nextId)
    (behind : rest.nextId = t.nextId) : Numbers r f rest where
  ids := before ▸ h.ids
  nextId := behind.trans (before ▸ h.nextId)

theorem numbers_leaf (leafOf : Int → Formula) (ids : ∀ i, (leafOf i).ids = [i])
    (count : ∀ i, (leafOf i).nodeCount = 1) :
    Numbers r (leaf leafOf r).1 (leaf leafOf r).2 where
  ids := by
    unfold leaf
    rw [ids, count]
    rfl
  nextId := by
    unfold leaf bump
    rw [count, nextId_advance]

theorem Numbers.not (h : Numbers r f rest) : Numbers r (.not f rest.nextId) rest.bump where
  ids := by
    rw [Formula.ids, h.ids, h.nextId, Formula.nodeCount_not, numbersFrom_concat]
  nextId := by
    rw [Formula.nodeCount_not, ← Nat.add_assoc, ← h.nextId]
    rfl

theorem Numbers.negate (h : Numbers r f rest) (n : Nat) :
    Numbers r (negate n f rest).1 (negate n f rest).2 := by
  induction n generalizing f rest with
  | zero => exact h
  | succ n ih => exact ih h.not

theorem Numbers.join (left : Numbers r f s) (right : Numbers s g rest) :
    Numbers r (join k f g rest).1 (join k f g rest).2 where
  ids := by
    unfold Reader.join
    rw [Formula.ids, left.ids, right.ids, right.nextId, left.nextId, numbersFrom_append,
      Nat.add_assoc, numbersFrom_concat, Formula.nodeCount_gate]
  nextId := by
    unfold Reader.join bump
    rw [Formula.nodeCount_gate, ← Nat.add_assoc, ← Nat.add_assoc, ← left.nextId, ← right.nextId]

/-- What a stage of reading numbers: an onward stage goes on behind what is numbered already. -/
def StageNumbers : Stage → Reader → Formula → Reader → Prop
  | .phrase _, r, f, rest => Numbers r f rest
  | .onward _ left, s, f, rest => ∀ r, Numbers r left s → Numbers r f rest

theorem Reads.numbers {stage : Stage} {o : Except Fault Formula × Reader} (h : Reads stage r o)
    (answer : o.1 = .ok f) : StageNumbers stage r f o.2 := by
  induction h generalizing f with
  | chain _ _ first more => exact more answer _ (first rfl)
  | finished =>
    cases answer
    exact fun _ numbered => numbered
  | @joined level left right r s t ts k written o _ _ _ _ next more =>
    have same : (if written then r.advance else r).nextId = r.nextId := by
      cases written <;> simp
    intro r₀ numbered
    apply more answer
    exact numbered.join ((next rfl).of_nextId same rfl)
  | @operand r rest f _ inner =>
    cases answer
    have numbered : Numbers r f (rest.skip rest.primes) :=
      (inner rfl).of_nextId (nextId_skip _ _) (nextId_skip _ _)
    exact numbered.negate _
  | name =>
    cases answer
    exact (numbers_leaf (.var _) (fun _ => rfl) fun _ => rfl).of_nextId rfl rfl
  | constant =>
    cases answer
    exact numbers_leaf (.const _) (fun _ => rfl) fun _ => rfl
  | enclosed _ _ _ _ _ inner =>
    cases answer
    exact (inner rfl).of_nextId (nextId_advance _) (nextId_advance _)
  | chainFault | joinedFault | operandFault | tooDeep | unclosed | enclosedFault | missing =>
    cases answer

end Reader

end Switching
