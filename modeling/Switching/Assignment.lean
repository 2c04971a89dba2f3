import Switching.Counting
import Switching.Fault

/-!
Assignments of bits to names, and the number of an assignment: its bits over a list of names, read
as a binary number with the first name as the most significant bit.
-/
namespace Switching

/-- Bits by name, in the order in which the names were first set. -/
structure Assignment where
  entries : List (String × Bool)
  deriving DecidableEq, Repr

/-- The bit of a number at a distance from the least significant one; a negative number goes on
with ones. -/
def bitAt (n : Int) (k : Nat) : Bool := (n >>> k) % 2 == 1

namespace Assignment

def empty : Assignment := ⟨[]⟩

/-- The value of the last entry for a name is the only one: entries are replaced where they
stand. -/
def setEntry (name : String) (b : Bool) : List (String × Bool) → List (String × Bool)
  | [] => [(name, b)]
  | (other, c) :: rest =>
    if other = name then (other, b) :: rest else (other, c) :: setEntry name b rest

def set (a : Assignment) (name : String) (b : Bool) : Assignment := ⟨setEntry name b a.entries⟩

def value? (a : Assignment) (name : String) : Option Bool := a.entries.lookup name

def value (a : Assignment) (name : String) : Except Fault Bool :=
  match a.value? name with
  | some b => .ok b
  | none => .error (.unassigned name)

def ofList (entries : List (String × Bool)) : Assignment :=
  entries.foldl (fun a e => a.set e.1 e.2) empty

def ofLevels (levels : List (String × Int)) : Assignment :=
  ofList (levels.map fun e => (e.1, e.2 != 0))

def numberEntries (n : Int) : List String → List (String × Bool)
  | [] => []
  | name :: names => (name, bitAt n names.length) :: numberEntries n names

def ofNumber (n : Int) (names : List String) : Assignment := ofList (numberEntries n names)

/-- The number whose leading bits are those of `n`, continued with the bits of the names. -/
def numberFrom (a : Assignment) (n : Nat) : List String → Except Fault Nat
  | [] => .ok n
  | name :: names =>
    match a.value name with
    | .ok b => a.numberFrom (2 * n + b.toNat) names
    | .error f => .error f

def number (a : Assignment) (names : List String) : Except Fault Nat := a.numberFrom 0 names

def mirrorNumber (a : Assignment) (names : List String) : Except Fault Nat :=
  match a.number names with
  | .ok n => .ok (powerOfTwo names.length - 1 - n)
  | .error f => .error f

def all (names : List String) : List Assignment :=
  (List.range (powerOfTwo names.length)).map fun i => ofNumber (i : Nat) names

theorem lookup_setEntry (name x : String) (b : Bool) (es : List (String × Bool)) :
    (setEntry name b es).lookup x = if x = name then some b else es.lookup x := by
  induction es with
  | nil =>
    by_cases h : x = name
    · simp [setEntry, h]
    · simp [setEntry, List.lookup_cons, h, beq_false_of_ne h]
  | cons e es ih =>
    obtain ⟨other, c⟩ := e
    by_cases ho : other = name
    · subst ho
      by_cases hx : x = other
      · simp [setEntry, hx]
      · simp [setEntry, List.lookup_cons, hx, beq_false_of_ne hx]
    · by_cases hx : x = other
      · subst hx; simp [setEntry, ho]
      · simp [setEntry, List.lookup_cons, ho, beq_false_of_ne hx, ih]

theorem value?_set (a : Assignment) (name x : String) (b : Bool) :
    (a.set name b).value? x = if x = name then some b else a.value? x :=
  lookup_setEntry name x b a.entries

end Assignment

end Switching
