import Switching.Karnaugh.Group

/-!
Karnaugh maps as plain text.
-/
namespace Switching

namespace KarnaughMap

def textLine (header : String) (cells : List String) : String :=
  padRight 8 header ++ " ".intercalate (cells.map (padLeft 3))

def gridText (m : KarnaughMap) : String :=
  let corner := String.join m.rowVariables ++ "\\" ++ String.join m.columnVariables
  lines <|
    textLine corner (m.columnHeaders.map digitsText) ::
      (m.rowHeaders.zip m.cells).map fun (header, cells) =>
        textLine (digitsText header) (cells.map fun c => bitText c.value)

def groupText (groups : List MapGroup) : String :=
  let terms := groups.map (·.term)
  let listed := ", ".intercalate terms
  lines
    ["Groups: " ++ (if listed = "" then "none" else listed),
      "K-map SOP: " ++ MapGroup.sumOfTerms terms]

end KarnaughMap

end Switching
