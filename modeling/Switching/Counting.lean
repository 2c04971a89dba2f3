/-!
Powers of two and totals.
-/
namespace Switching

def powerOfTwo (n : Nat) : Nat := Nat.pow 2 n

def total : List Nat → Nat
  | [] => 0
  | n :: ns => n + total ns

end Switching
