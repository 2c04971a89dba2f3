import Switching.Analysis
import Switching.Assignment
import Switching.Binary
import Switching.CommandLine.Arguments
import Switching.CommandLine.Bindings
import Switching.CommandLine.Run
import Switching.Counting
import Switching.Cover.Clauses
import Switching.Cover.Covering
import Switching.Cover.Exact
import Switching.Cover.Greedy
import Switching.Diagnostic
import Switching.Document
import Switching.Fault
import Switching.Formula
import Switching.Formula.Evaluate
import Switching.Formula.Fold
import Switching.Formula.Render
import Switching.Formula.Renumber
import Switching.Gate
import Switching.Grammar.Parse
import Switching.Grammar.Reader
import Switching.Grammar.Session
import Switching.Implicant
import Switching.Karnaugh.Gray
import Switching.Karnaugh.Group
import Switching.Karnaugh.Map
import Switching.Karnaugh.Render
import Switching.Main
import Switching.Minimization
import Switching.Minimization.Listing
import Switching.OrderedSet
import Switching.Primes
import Switching.Proofs.Analysis
import Switching.Proofs.Bindings
import Switching.Proofs.Blanks
import Switching.Proofs.Calls
import Switching.Proofs.CommandLine
import Switching.Proofs.Counting
import Switching.Proofs.Cover.Clauses
import Switching.Proofs.Cover.Exact
import Switching.Proofs.Cover.Greedy
import Switching.Proofs.Cover.Harmonic
import Switching.Proofs.Cover.Optimum
import Switching.Proofs.Cover.Places
import Switching.Proofs.Cover.Search
import Switching.Proofs.Cube
import Switching.Proofs.Cutting
import Switching.Proofs.Digits
import Switching.Proofs.Entries
import Switching.Proofs.Enumeration
import Switching.Proofs.Export
import Switching.Proofs.Expression
import Switching.Proofs.Fold
import Switching.Proofs.GateCount
import Switching.Proofs.Grammar.Acceptance
import Switching.Proofs.Grammar.Completeness
import Switching.Proofs.Grammar.Derivation
import Switching.Proofs.Grammar.Likeness
import Switching.Proofs.Grammar.Nesting
import Switching.Proofs.Grammar.Numbering
import Switching.Proofs.Grammar.Precedence
import Switching.Proofs.Grammar.Progress
import Switching.Proofs.Grammar.Reading
import Switching.Proofs.Grammar.Refusal
import Switching.Proofs.Grammar.Rendering
import Switching.Proofs.Grammar.RoundTrip
import Switching.Proofs.Grammar.Session
import Switching.Proofs.Grammar.Soundness
import Switching.Proofs.Grammar.Standing
import Switching.Proofs.Grammar.Writing
import Switching.Proofs.Halves
import Switching.Proofs.Identifiers
import Switching.Proofs.Joining
import Switching.Proofs.Karnaugh.Gray
import Switching.Proofs.Karnaugh.Grouping
import Switching.Proofs.Karnaugh.Map
import Switching.Proofs.Karnaugh.Product
import Switching.Proofs.Karnaugh.Rectangle
import Switching.Proofs.Karnaugh.Span
import Switching.Proofs.Leaves
import Switching.Proofs.LetterCase
import Switching.Proofs.Lexemes
import Switching.Proofs.Location
import Switching.Proofs.Lookup
import Switching.Proofs.Meaning
import Switching.Proofs.Minimum
import Switching.Proofs.Names
import Switching.Proofs.OnSet
import Switching.Proofs.OrderedSet
import Switching.Proofs.Partition
import Switching.Proofs.PrimePattern
import Switching.Proofs.Primes
import Switching.Proofs.ProductOfSums
import Switching.Proofs.Products
import Switching.Proofs.Records
import Switching.Proofs.Renumber
import Switching.Proofs.Requests
import Switching.Proofs.Respelling
import Switching.Proofs.Scan
import Switching.Proofs.Separation
import Switching.Proofs.Separator
import Switching.Proofs.Simplification
import Switching.Proofs.Spelling
import Switching.Proofs.Trace
import Switching.Proofs.TruthTable
import Switching.Proofs.Valuation
import Switching.Proofs.Value
import Switching.Proofs.Verification
import Switching.Rounding
import Switching.Service
import Switching.Text.CharClass
import Switching.Text.Digits
import Switching.Text.Layout
import Switching.Text.Location
import Switching.Text.Printable
import Switching.Text.Quoted
import Switching.Text.Split
import Switching.Text.Uppercase
import Switching.Token
import Switching.Token.Scan
import Switching.TruthTable
import Switching.TruthTable.Canonical
import Switching.TruthTable.Export
import Switching.Verification
