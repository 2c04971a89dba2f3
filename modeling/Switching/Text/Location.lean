/-!
Lines and columns of a place in a text, both counted from one.
-/
namespace Switching

/-- The part of a text before a place. A negative place counts from the end of the text. -/
def before (text : List Char) (position : Int) : List Char :=
  text.take (if position < 0 then position + text.length else position).toNat

def lineOf (text : List Char) (position : Int) : Nat :=
  (before text position).count '\n' + 1

def lineStart (text : List Char) (position : Int) : Nat :=
  let front := before text position
  front.length - (front.reverse.takeWhile (· ≠ '\n')).length

def columnOf (text : List Char) (position : Int) : Int :=
  position - lineStart text position + 1

end Switching
