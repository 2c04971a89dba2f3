import Switching.Proofs.Trace

/-! The calls of a fold. A fold calls the step of every node once, behind those of its operands and
from left to right, with what came of them; where a step aborts there are no more calls. So it is
the recursion of the formula call by call, and the values that it takes from its list are always
there. -/
namespace Switching

/-- A step that was called: the node, the values of its operands, and what came of it. -/
structure Call (ε α : Type) where
  node : Formula
  operands : List α
  outcome : Except ε α

namespace Steps

variable {m : Type → Type} {ε σ α : Type}

def call? (s : Steps m α) : Formula → List α → Option (m α)
  | .var n i, [] => some (s.onVariable n i)
  | .const b i, [] => some (s.onConstant b i)
  | .not f i, [v] => some (s.onNot f i v)
  | .gate k l r i, [v, w] => some (s.onGate k l r i v w)
  | _, _ => none

def logged (node : Formula) (operands : List α) (step : ExceptT ε (StateM σ) α) :
    ExceptT ε (StateM (σ × List (Call ε α))) α :=
  fun (st, calls) =>
    let (outcome, next) := step st
    (outcome, next, calls ++ [⟨node, operands, outcome⟩])

def recorded (s : Steps (ExceptT ε (StateM σ)) α) :
    Steps (ExceptT ε (StateM (σ × List (Call ε α)))) α where
  onVariable n i := logged (.var n i) [] (s.onVariable n i)
  onConstant b i := logged (.const b i) [] (s.onConstant b i)
  onNot f i v := logged (.not f i) [v] (s.onNot f i v)
  onGate k l r i v w := logged (.gate k l r i) [v, w] (s.onGate k l r i v w)

/-- The calls lead from one state to another, each in the state that the one before it left. -/
def Performs (s : Steps (ExceptT ε (StateM σ)) α) : σ → List (Call ε α) → σ → Prop
  | st, [], next => next = st
  | st, c :: calls, next =>
    ∃ step between, s.call? c.node c.operands = some step ∧ step st = (c.outcome, between) ∧
      s.Performs between calls next

theorem Performs.append {s : Steps (ExceptT ε (StateM σ)) α} {st between next : σ}
    {calls more : List (Call ε α)} (first : s.Performs st calls between)
    (second : s.Performs between more next) : s.Performs st (calls ++ more) next := by
  induction calls generalizing st with
  | nil => exact first ▸ second
  | cons c calls ih =>
    obtain ⟨step, after, called, done, rest⟩ := first
    exact ⟨step, after, called, done, ih rest⟩

theorem Performs.concat {s : Steps (ExceptT ε (StateM σ)) α} {st between : σ}
    {calls : List (Call ε α)} {node : Formula} {operands : List α}
    {step : ExceptT ε (StateM σ) α} (performs : s.Performs st calls between)
    (called : s.call? node operands = some step) :
    s.Performs st (calls ++ [⟨node, operands, (step between).1⟩]) (step between).2 :=
  performs.append ⟨step, _, called, rfl, rfl⟩

end Steps

namespace Formula

section Loop

variable {m : Type → Type} [Monad m] {α : Type}

/-- The two lists without the promise that no value lacks; `lacking` is done where one does. -/
def runUnchecked (s : Steps m α) (lacking : m α) : List Task → List α → m α
  | [], v :: _ => pure v
  | .visit (.var n i) :: work, values => do
    let v ← s.onVariable n i
    runUnchecked s lacking work (v :: values)
  | .visit (.const b i) :: work, values => do
    let v ← s.onConstant b i
    runUnchecked s lacking work (v :: values)
  | .visit (.not f i) :: work, values =>
    runUnchecked s lacking (.visit f :: .closeNot f i :: work) values
  | .visit (.gate k l r i) :: work, values =>
    runUnchecked s lacking (.visit l :: .visit r :: .closeGate k l r i :: work) values
  | .closeNot f i :: work, v :: values => do
    let w ← s.onNot f i v
    runUnchecked s lacking work (w :: values)
  | .closeGate k l r i :: work, right :: left :: values => do
    let v ← s.onGate k l r i left right
    runUnchecked s lacking work (v :: values)
  | [], [] => lacking
  | .closeNot .. :: _, [] => lacking
  | .closeGate .. :: _, [] => lacking
  | .closeGate .. :: _, [_] => lacking
  termination_by work => Task.steps work
  decreasing_by all_goals simp only [Task.steps, Task.formulaSteps]; omega

theorem runUnchecked_eq (s : Steps m α) (lacking : m α) (work : List Task) (values : List α)
    (ready : Task.Ready work values.length) :
    runUnchecked s lacking work values = runTasks s work values ready := by
  fun_induction runTasks s work values ready with
  | case1 v => rw [runUnchecked]
  | case2 n i work values _ _ ih =>
    rw [runUnchecked]
    exact bind_congr ih
  | case3 b i work values _ _ ih =>
    rw [runUnchecked]
    exact bind_congr ih
  | case4 f i work values _ _ ih =>
    rw [runUnchecked]
    exact ih
  | case5 k l r i work values _ _ ih =>
    rw [runUnchecked]
    exact ih
  | case6 f i work v values _ _ ih =>
    rw [runUnchecked]
    exact bind_congr ih
  | case7 k l r i work right left values _ _ ih =>
    rw [runUnchecked]
    exact bind_congr ih

end Loop

section Calls

variable {ε σ α : Type} {f : Formula} {calls : List (Call ε α)} {outcome : Except ε α}

/-- The calls for a formula and what comes of them: those for the operands from left to right, and
then the one for the node, on what came of the operands. Behind one that aborts there is no
other. -/
inductive Calls : Formula → List (Call ε α) → Except ε α → Prop
  | var {n i outcome} : Calls (var n i) [⟨var n i, [], outcome⟩] outcome
  | const {b i outcome} : Calls (const b i) [⟨const b i, [], outcome⟩] outcome
  | not {f i calls v outcome} (operand : Calls f calls (.ok v)) :
      Calls (not f i) (calls ++ [⟨not f i, [v], outcome⟩]) outcome
  | notAborted {f i calls e} (operand : Calls f calls (.error e)) :
      Calls (not f i) calls (.error e)
  | gate {k l r i calls more v w outcome} (left : Calls l calls (.ok v))
      (right : Calls r more (.ok w)) :
      Calls (gate k l r i) (calls ++ more ++ [⟨gate k l r i, [v, w], outcome⟩]) outcome
  | leftAborted {k l r i calls e} (left : Calls l calls (.error e)) :
      Calls (gate k l r i) calls (.error e)
  | rightAborted {k l r i calls more v e} (left : Calls l calls (.ok v))
      (right : Calls r more (.error e)) : Calls (gate k l r i) (calls ++ more) (.error e)

/-- The nodes of the calls are the first ones in post-order, and all of them if no call aborts. -/
theorem Calls.nodes (h : Calls f calls outcome) :
    calls.map Call.node <+: f.postorder ∧
      ∀ v, outcome = .ok v → calls.map Call.node = f.postorder := by
  induction h with
  | var | const => exact ⟨List.prefix_rfl, fun _ _ => rfl⟩
  | not _ ih =>
    have operand := ih.2 _ rfl
    rw [List.map_append, operand]
    exact ⟨List.prefix_rfl, fun _ _ => rfl⟩
  | notAborted _ ih => exact ⟨ih.1.trans (List.prefix_append ..), nofun⟩
  | gate _ _ left right =>
    have first := left.2 _ rfl
    have second := right.2 _ rfl
    rw [List.map_append, List.map_append, first, second]
    exact ⟨List.prefix_rfl, fun _ _ => rfl⟩
  | leftAborted _ left =>
    rw [postorder, List.append_assoc]
    exact ⟨left.1.trans (List.prefix_append ..), nofun⟩
  | rightAborted _ _ left right =>
    have first := left.2 _ rfl
    rw [List.map_append, first, postorder]
    exact ⟨((List.prefix_append_right_inj _).mpr right.1).trans (List.prefix_append ..), nofun⟩

theorem Calls.forall_ok (h : Calls f calls outcome) {v : α} (ok : outcome = .ok v) :
    ∀ c ∈ calls, ∃ w, c.outcome = .ok w := by
  induction h generalizing v with
  | var | const => exact List.forall_mem_singleton.mpr ⟨v, ok⟩
  | not _ ih => exact List.forall_mem_append.mpr ⟨ih rfl, List.forall_mem_singleton.mpr ⟨v, ok⟩⟩
  | gate _ _ left right =>
    have operands := List.forall_mem_append.mpr ⟨left rfl, right rfl⟩
    exact List.forall_mem_append.mpr ⟨operands, List.forall_mem_singleton.mpr ⟨v, ok⟩⟩
  | notAborted | leftAborted | rightAborted => cases ok

theorem Calls.exists_last (h : Calls f calls outcome) :
    ∃ front last, calls = front ++ [last] ∧ last.outcome = outcome ∧
      ∀ c ∈ front, ∃ v, c.outcome = .ok v := by
  induction h with
  | var | const => exact ⟨[], _, rfl, rfl, nofun⟩
  | not operand => exact ⟨_, _, rfl, rfl, operand.forall_ok rfl⟩
  | notAborted _ ih => exact ih
  | gate left right =>
    exact ⟨_, _, rfl, rfl, List.forall_mem_append.mpr ⟨left.forall_ok rfl, right.forall_ok rfl⟩⟩
  | leftAborted _ ih => exact ih
  | rightAborted left _ _ ih =>
    obtain ⟨front, last, rfl, same, others⟩ := ih
    refine ⟨_ ++ front, last, (List.append_assoc ..).symm, same, ?_⟩
    exact List.forall_mem_append.mpr ⟨left.forall_ok rfl, others⟩

theorem bind_run {β : Type} (x : ExceptT ε (StateM σ) α) (next : α → ExceptT ε (StateM σ) β)
    (st : σ) : (x >>= next) st =
      match x st with
      | (.ok v, between) => next v between
      | (.error e, between) => (.error e, between) := by
  have unfolded : (x >>= next) st = ExceptT.bindCont next (x st).1 (x st).2 := rfl
  rw [unfolded]
  cases x st with
  | mk outcome between => cases outcome <;> rfl

theorem combine_recorded (s : Steps (ExceptT ε (StateM σ)) α) (f : Formula) (st : σ)
    (log : List (Call ε α)) :
    ∃ calls outcome next,
      f.combine s.recorded (st, log) = (outcome, next, log ++ calls) ∧
      f.combine s st = (outcome, next) ∧ Calls f calls outcome ∧ s.Performs st calls next := by
  induction f generalizing st log with
  | var n i =>
    exact ⟨_, _, _, rfl, rfl, .var, _, _, rfl, rfl, rfl⟩
  | const b i =>
    exact ⟨_, _, _, rfl, rfl, .const, _, _, rfl, rfl, rfl⟩
  | not f i ih =>
    obtain ⟨calls, outcome, between, recorded, plain, made, performs⟩ := ih st log
    simp only [combine, bind_run, recorded, plain]
    cases outcome with
    | error e => exact ⟨calls, _, _, rfl, rfl, .notAborted made, performs⟩
    | ok v =>
      refine ⟨_, _, _, ?_, rfl, .not made, performs.concat rfl⟩
      rw [← List.append_assoc]
      rfl
  | gate k l r i left right =>
    obtain ⟨calls, outcome, between, recorded, plain, made, performs⟩ := left st log
    simp only [combine, bind_run, recorded, plain]
    cases outcome with
    | error e => exact ⟨calls, _, _, rfl, rfl, .leftAborted made, performs⟩
    | ok v =>
      obtain ⟨more, outcome, after, recorded', plain', made', performs'⟩ :=
        right between (log ++ calls)
      have both := performs.append performs'
      simp only [recorded', plain']
      cases outcome with
      | error e =>
        refine ⟨_, _, _, ?_, rfl, .rightAborted made made', both⟩
        rw [List.append_assoc]
      | ok w =>
        refine ⟨_, _, _, ?_, rfl, .gate made made', both.concat rfl⟩
        rw [← List.append_assoc, ← List.append_assoc]
        rfl

end Calls

/-- A fold is the recursion of the formula, whatever the steps do, and whatever would be done where
a value lacks. Its calls are those of the recursion: for every node one, in post-order, on what came
of the operands and in the state that the call before it left, up to the first that aborts. -/
theorem foldM_calls {m : Type → Type} [Monad m] [LawfulMonad m] {ε σ α β : Type}
    (s : Steps m α) (t : Steps (ExceptT ε (StateM σ)) β) (f : Formula) (st : σ) :
    foldM s f = f.combine s ∧
    (∀ lacking, runUnchecked s lacking [.visit f] [] = f.combine s) ∧
    ∃ calls outcome next,
      foldM t.recorded f (st, []) = (outcome, next, calls) ∧
      f.combine t.recorded (st, []) = (outcome, next, calls) ∧
      foldM t f st = (outcome, next) ∧
      Calls f calls outcome ∧ t.Performs st calls next ∧
      calls.map Call.node <+: f.postorder ∧
      (∀ v, outcome = .ok v → calls.map Call.node = f.postorder) ∧
      ∃ front last, calls = front ++ [last] ∧ last.outcome = outcome ∧
        ∀ c ∈ front, ∃ v, c.outcome = .ok v := by
  refine ⟨foldM_eq_combine s f, fun lacking => ?_, ?_⟩
  · rw [runUnchecked_eq s lacking _ [] (.single f), ← foldM, foldM_eq_combine]
  · obtain ⟨calls, outcome, next, recorded, plain, made, performs⟩ := combine_recorded t f st []
    rw [foldM_eq_combine, foldM_eq_combine]
    exact ⟨calls, outcome, next, recorded, recorded, plain, made, performs, made.nodes.1,
      made.nodes.2, made.exists_last⟩

/-- The negation of a variable and a constant: steps that count nodes, and steps that abort at the
constant after they have counted two. -/
theorem foldM_calls_aborted :
    let f : Formula := .gate .nor (.not (.var "A" 7) 7) (.const true 3) 0
    let s : Steps Id Nat :=
      ⟨fun _ _ => 1, fun _ _ => 1, fun _ _ v => v + 1, fun _ _ _ _ v w => v + w + 1⟩
    let t : Steps (ExceptT String (StateM Nat)) Bool :=
      ⟨fun _ _ n => (.ok true, n + 1), fun _ _ n => (.error "constant", n),
        fun _ _ v n => (.ok !v, n + 1), fun k _ _ _ v w n => (.ok (k.apply v w), n + 1)⟩
    foldM s f = (4 : Nat) ∧ foldM t f 0 = (.error "constant", 2) ∧
    ∃ calls, foldM t.recorded f (0, []) = (.error "constant", 2, calls) ∧
      calls.map Call.node = [.var "A" 7, .not (.var "A" 7) 7, .const true 3] ∧
      calls.map Call.operands = [[], [true], []] := by
  intro f s t
  obtain ⟨pure, _, calls, outcome, next, recorded, combined, plain, _⟩ := foldM_calls s t f 0
  have same : (.error "constant", 2, [⟨.var "A" 7, [], .ok true⟩,
      ⟨.not (.var "A" 7) 7, [true], .ok false⟩, ⟨.const true 3, [], .error "constant"⟩]) =
      (outcome, next, calls) := combined
  cases same
  exact ⟨pure, plain, _, recorded, rfl, rfl⟩

end Formula

end Switching
