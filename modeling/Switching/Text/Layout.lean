/-!
Fixed-width layout of plain text. Widths count characters, and a text that is already as wide as
its column is left alone.
-/
namespace Switching

def padLeft (width : Nat) (s : String) : String :=
  String.ofList (s.toList.leftpad width ' ')

def padRight (width : Nat) (s : String) : String :=
  String.ofList (s.toList.rightpad width ' ')

def rule (c : Char) (width : Nat) : String :=
  String.ofList (List.replicate width c)

def lines (ls : List String) : String :=
  String.join (ls.map (· ++ "\n"))

def bitText (b : Bool) : String := if b then "1" else "0"

def numberList (ns : List Nat) : String :=
  "[" ++ ", ".intercalate (ns.map toString) ++ "]"

end Switching
