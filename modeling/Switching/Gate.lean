/-!
The six two-input gates, and the three tiers of binding strength that they fall into.
-/
namespace Switching

inductive Gate
  | and | or | xor | nand | nor | xnor
  deriving DecidableEq, Repr

/-- How tightly a gate binds, loosest first. -/
inductive Tier
  | sum | exclusive | product
  deriving DecidableEq, Repr

namespace Tier

def rank : Tier → Nat
  | sum => 1
  | exclusive => 2
  | product => 3

end Tier

namespace Gate

def all : List Gate := [and, or, xor, nand, nor, xnor]

def name : Gate → String
  | and => "AND"
  | or => "OR"
  | xor => "XOR"
  | nand => "NAND"
  | nor => "NOR"
  | xnor => "XNOR"

def sign : Gate → String
  | and => "∧"
  | or => "∨"
  | xor => "⊕"
  | nand => "↑"
  | nor => "↓"
  | xnor => "⊙"

def tier : Gate → Tier
  | or | nor => .sum
  | xor | xnor => .exclusive
  | and | nand => .product

def apply : Gate → Bool → Bool → Bool
  | and, a, b => a && b
  | or, a, b => a || b
  | xor, a, b => a != b
  | nand, a, b => !(a && b)
  | nor, a, b => !(a || b)
  | xnor, a, b => a == b

theorem mem_all (g : Gate) : g ∈ all := by cases g <;> decide

end Gate

end Switching
