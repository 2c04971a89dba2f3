import Switching.Text.Layout

/-!
Binary notation with the most significant digit first.
-/
namespace Switching

/-- The digits of a number, at least `width` of them and at least one. -/
def binaryDigits (width n : Nat) : List Bool :=
  (List.range (max width (n.log2 + 1))).reverse.map n.testBit

/-- The digits of a number in a field of a given width. A field of width zero is empty; a number
too great for its field runs over. -/
def binaryField (width n : Nat) : List Bool :=
  if width = 0 then [] else binaryDigits width n

def digitsText (digits : List Bool) : String := String.join (digits.map bitText)

end Switching
