import Switching.CommandLine.Bindings
import Switching.Minimization
import Switching.Text.Digits

/-!
The arguments of the command line. Long options may be cut short where only one option begins that
way; a value may follow an option as the next argument or be attached to it; short options may share
one dash; and what follows a bare `--` is no option.
-/
namespace Switching

inductive OutputFormat
  | text | csv | latex | json
  deriving DecidableEq, Repr

namespace OutputFormat

def ofName? (s : String) : Option OutputFormat :=
  if s = "text" then some text
  else if s = "csv" then some csv
  else if s = "latex" then some latex
  else if s = "json" then some json
  else none

end OutputFormat

structure Options where
  expression? : Option String := none
  format : OutputFormat := .text
  method : Method := .greedy
  steps : Bool := false
  map : Bool := false
  trace? : Option Assignment := none
  validate : Bool := false
  examples : Bool := false
  verbose : Bool := false
  deriving DecidableEq, Repr

inductive Switch
  | help | format | exact | steps | map | trace | validate | examples | verbose
  deriving DecidableEq, Repr

namespace Switch

def spellings : List (String × Switch) :=
  [("-h", help), ("--help", help), ("--format", format), ("-f", format), ("--exact", exact),
    ("--steps", steps), ("--kmap", map), ("--trace", trace), ("--validate", validate),
    ("--examples", examples), ("--verbose", verbose), ("-v", verbose)]

def ofSpelling? (s : String) : Option Switch := spellings.lookup s

def takesValue : Switch → Bool
  | format | trace => true
  | _ => false

def apply (o : Options) : Switch → Options
  | exact => { o with method := .exact }
  | steps => { o with steps := true }
  | map => { o with map := true }
  | validate => { o with validate := true }
  | examples => { o with examples := true }
  | verbose => { o with verbose := true }
  | help | format | trace => o

def applyValue? (o : Options) (value : String) : Switch → Option Options
  | format => (OutputFormat.ofName? value).map fun f => { o with format := f }
  | trace =>
    match Assignment.ofBindings value with
    | .ok a => some { o with trace? := some a }
    | .error _ => none
  | _ => none

end Switch

inductive Attached
  | glued (cs : List Char)
  | equals (cs : List Char)
  deriving DecidableEq, Repr

namespace Attached

def text : Attached → String
  | glued cs | equals cs => String.ofList cs

def size : Attached → Nat
  | glued cs | equals cs => cs.length

def after : List Char → Option Attached
  | [] => none
  | '=' :: cs => some (equals cs)
  | cs => some (glued cs)

theorem size_after {cs : List Char} {a : Attached} (h : a ∈ after cs) : a.size ≤ cs.length := by
  unfold after at h
  split at h <;> simp_all <;> subst h <;> simp [size]

end Attached

inductive Word
  | value (s : String)
  | separator
  | option (s : Switch) (attached : Option Attached)
  | unknown
  deriving DecidableEq, Repr

namespace Word

def isLong (s : String) : Bool := s.startsWith "--"

def cutAtEquals (s : String) : String × Option Attached :=
  match cutAt? '=' s.toList with
  | some (stem, rest) => (String.ofList stem, some (.equals rest))
  | none => (s, none)

def longMatches (s : String) : List Word :=
  let cut := cutAtEquals s
  (Switch.spellings.filter fun e => e.1.startsWith cut.1).map fun e => option e.2 cut.2

def shortMatches (s : String) : List Word :=
  let spelling := String.ofList (s.toList.take 2)
  match Switch.ofSpelling? spelling with
  | some w => [option w (some (.glued (s.toList.drop 2)))]
  | none => []

/-- Digits, at least one, that a line end may follow. -/
def isNumeral (cs : List Char) : Bool :=
  let digits := cs.takeWhile isDecimalDigit
  let rest := cs.dropWhile isDecimalDigit
  digits ≠ [] && (rest = [] || rest = ['\n'])

def isNegativeNumber : List Char → Bool
  | '-' :: digits =>
    isNumeral digits ||
      match digits.dropWhile isDecimalDigit with
      | '.' :: fraction => isNumeral fraction
      | _ => false
  | _ => false

/-- An argument that begins with a dash, is longer than that and is no full spelling. There is none
if it may stand for several options. -/
def ofDashed? (s : String) : Option Word :=
  match if isLong s then longMatches s else shortMatches s with
  | [w] => some w
  | [] =>
    if isNegativeNumber s.toList || s.toList.contains ' ' then some (value s) else some unknown
  | _ => none

def full? (s : String) : Option Word :=
  let cut := cutAtEquals s
  (Switch.ofSpelling? cut.1).map fun w => option w cut.2

def ofArgument? (s : String) : Option Word :=
  match s.toList with
  | '-' :: _ :: _ =>
    match full? s with
    | some w => some w
    | none => ofDashed? s
  | _ => some (value s)

/-- The roles of all arguments: behind the first separator there are only values. -/
def ofArguments? : List String → Option (List Word)
  | [] => some []
  | s :: rest =>
    if s = "--" then some (separator :: rest.map value)
    else
      match ofArgument? s, ofArguments? rest with
      | some w, some ws => some (w :: ws)
      | _, _ => none

end Word

inductive Reading
  | options (o : Options)
  | help
  | refused
  deriving DecidableEq, Repr

namespace Reading

/-- The options of one argument: those without a value, in order, and behind them at most one that
takes a value, with what is attached to it. Letters that stand for no option may be left over. -/
structure Cluster where
  plain : List Switch
  valued? : Option (Switch × Option Attached) := none
  surplus : Bool := false

/-- The options that share the dash of an argument. There is no result if something is attached to
an option that it cannot take. -/
def cluster? (w : Switch) (attached : Option Attached) : Option Cluster :=
  if w.takesValue then some { plain := [], valued? := some (w, attached) }
  else
    match attached with
    | none => some { plain := [w] }
    | some (.glued (c :: cs)) =>
      if c = '-' then none
      else
        match Switch.ofSpelling? (String.ofList ['-', c]) with
        | none => some { plain := [w], surplus := true }
        | some w' =>
          (cluster? w' (Attached.after cs)).map fun k => { k with plain := w :: k.plain }
    | some _ => none
  termination_by (attached.map fun a => a.size + 1).getD 0
  decreasing_by
    cases h : Attached.after cs with
    | none => simp
    | some a =>
      have hsize := Attached.size_after h
      have hglued : (Attached.glued (c :: cs)).size = cs.length + 1 := rfl
      simp only [Option.map_some, Option.getD_some, hglued]
      omega

structure Applied (words : List Word) where
  options : Options
  rest : List Word
  askedHelp : Bool
  surplus : Bool
  noLonger : rest.length ≤ words.length

namespace Cluster

def askedHelp (k : Cluster) : Bool := k.plain.contains .help

/-- Once help was asked for, a value is not looked at. -/
def setValue? (k : Cluster) (o : Options) (w : Switch) (value : String) : Option Options :=
  if k.askedHelp then some o else w.applyValue? o value

/-- A value that is not attached is the next word. There is no result if it is missing or wrong. -/
def applied? (k : Cluster) (o : Options) (words : List Word) : Option (Applied words) :=
  let set := k.plain.foldl Switch.apply o
  match k.valued?, words with
  | none, words => some ⟨set, words, k.askedHelp, k.surplus, Nat.le_refl _⟩
  | some (w, some a), words =>
    (k.setValue? set w a.text).map fun o => ⟨o, words, k.askedHelp, k.surplus, Nat.le_refl _⟩
  | some (w, none), .value v :: rest =>
    (k.setValue? set w v).map fun o => ⟨o, rest, k.askedHelp, k.surplus, Nat.le_succ _⟩
  | some (_, none), _ => none

end Cluster

/-- Read words from left to right. The first value is the expression; a separator beside it
belongs to it. Any other value, any unknown option, and letters left over are too many. -/
def readWords (o : Options) (placed surplus : Bool) (words : List Word) : Reading :=
  match words with
  | [] => if surplus then refused else options o
  | .unknown :: rest => readWords o placed true rest
  | .value s :: .separator :: rest =>
    if placed then readWords o placed true (.separator :: rest)
    else readWords { o with expression? := some s } true surplus rest
  | .value s :: rest =>
    if placed then readWords o placed true rest
    else readWords { o with expression? := some s } true surplus rest
  | .separator :: .value s :: rest =>
    if placed then readWords o placed true (.value s :: rest)
    else readWords { o with expression? := some s } true surplus rest
  | .separator :: rest => readWords o true (surplus || placed) rest
  | .option w attached :: rest =>
    match (cluster? w attached).bind (·.applied? o rest) with
    | none => refused
    | some ⟨o, rest', askedHelp, unread, _⟩ =>
      if askedHelp then help else readWords o placed (surplus || unread) rest'
  termination_by words.length

def ofArguments (arguments : List String) : Reading :=
  match Word.ofArguments? arguments with
  | none => refused
  | some words => readWords {} false false words

end Reading

end Switching
