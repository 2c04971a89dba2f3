import Switching.Counting

/-!
Rounding to whole numbers, where a half goes to the even neighbour.
-/
namespace Switching

/-- The whole number nearest to a quotient; of two that are equally near, the even one. -/
def roundQuotient (num den : Nat) : Nat :=
  let q := num / den
  let r := num % den
  if 2 * r < den then q
  else if den < 2 * r then q + 1
  else if q % 2 = 0 then q else q + 1

/-- The whole number nearest to a finite number in double precision; of two that are equally near,
the even one. The number is `m · 2 ^ (e - 1075)` with a fraction of 52 bits, and the leading one of
`m` is left out of the fraction unless the exponent field is zero. -/
def nearestInt (x : Float) : Int :=
  let bits := x.toBits.toNat
  let fraction := bits % powerOfTwo 52
  let field := bits / powerOfTwo 52 % powerOfTwo 11
  let m := if field = 0 then fraction else fraction + powerOfTwo 52
  let e := max field 1
  let size := if 1075 ≤ e then m * powerOfTwo (e - 1075)
    else roundQuotient m (powerOfTwo (1075 - e))
  if powerOfTwo 63 ≤ bits then -(size : Int) else size

end Switching
