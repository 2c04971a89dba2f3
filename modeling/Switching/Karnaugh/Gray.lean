import Switching.Binary

/-!
Gray codes: numberings in which neighbours differ in one digit.
-/
namespace Switching

/-- The number whose binary digits are the Gray code of a position. A position below zero has the
code of its mirror image, as −1 mirrors 0. -/
def grayNumber : Int → Nat
  | .ofNat p => p ^^^ (p >>> 1)
  | .negSucc p => p ^^^ (p >>> 1)

def grayCode (width : Nat) (position : Int) : List Bool :=
  binaryField width (grayNumber position)

end Switching
