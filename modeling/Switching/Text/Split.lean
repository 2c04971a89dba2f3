/-!
Splitting a text at a character.
-/
namespace Switching

/-- The pieces between the occurrences of a character: one more than there are occurrences. -/
def splitAt (sep : Char) : List Char → List (List Char)
  | [] => [[]]
  | c :: cs =>
    if c = sep then [] :: splitAt sep cs
    else
      match splitAt sep cs with
      | [] => [[c]]
      | piece :: pieces => (c :: piece) :: pieces

def cutAt? (sep : Char) : List Char → Option (List Char × List Char)
  | [] => none
  | c :: cs =>
    if c = sep then some ([], cs)
    else (cutAt? sep cs).map fun parts => (c :: parts.1, parts.2)

theorem cutAt?_eq_none_iff {sep : Char} {cs : List Char} : cutAt? sep cs = none ↔ sep ∉ cs := by
  induction cs with
  | nil => simp [cutAt?]
  | cons c cs ih =>
    by_cases h : c = sep
    · simp [cutAt?, h]
    · simp [cutAt?, h, ih, Ne.symm h]

end Switching
