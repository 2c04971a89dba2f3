import Switching.Assignment
import Switching.Text.CharClass
import Switching.Text.Split
import Switching.Text.Uppercase

/-!
Assignments as they are written on the command line: `A=1,B=0`. Names are put in upper case, blanks
around names, values and items are dropped, and blank items are skipped.
-/
namespace Switching

namespace Assignment

def bindingItems (text : List Char) : List (List Char) :=
  ((splitAt ',' text).map trim).filter fun item => !item.isEmpty

def binding? (item : List Char) : Option (String × Bool) :=
  match cutAt? '=' item with
  | none => none
  | some (name, value) =>
    let entry (b : Bool) := some (String.ofList (upperCase (trim name)), b)
    match trim value with
    | ['0'] => entry false
    | ['1'] => entry true
    | _ => none

def ofBindings (text : String) : Except Fault Assignment :=
  let items := bindingItems text.toList
  match items.find? fun item => (binding? item).isNone with
  | some item => .error (.badBinding (String.ofList item))
  | none => .ok (ofList (items.filterMap binding?))

end Assignment

end Switching
