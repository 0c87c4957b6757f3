import AccountLint.Interchange.Findings
import AccountLint.Interchange.Steps
import AccountLint.Inventory
import AccountLint.Json.Writer
import AccountLint.Proofs.Flow.Order
import AccountLint.Proofs.Flow.Loops
import AccountLint.Verdict.Run
import AccountLint.Proofs.Facts.Location
import AccountLint.Proofs.Alias.Places
import AccountLint.Proofs.Guard.KeyChecks
import AccountLint.Proofs.Verdict.Function
import AccountLint.Proofs.Verdict.Coverage
import AccountLint.Proofs.Sink.Operands
import AccountLint.Proofs.Verdict.ArbitraryCpi
import AccountLint.Proofs.Blames
import AccountLint.Proofs.Program.Validation
import AccountLint.Proofs.Total.Names
import AccountLint.Proofs.Total.Types
import AccountLint.Proofs.Total.Aliases
import AccountLint.Proofs.Total.Facts
import AccountLint.Proofs.Total.Guards
import AccountLint.Proofs.Total.Sinks
import AccountLint.Proofs.Total.Templates
import AccountLint.Proofs.Total.Verdict
import AccountLint.Proofs.Total.Program
import AccountLint.Proofs.Total.Run
import AccountLint.Proofs.Agreement
import AccountLint.Proofs.Hardening.Types
import AccountLint.Proofs.Hardening.Guards
import AccountLint.Proofs.Hardening.Function
import AccountLint.Proofs.Hardening.Declarations
import AccountLint.Proofs.Hardening.Run
import AccountLint.Proofs.Order
import AccountLint.Proofs.Selection
import AccountLint.Proofs.Reordering.Run
import AccountLint.Proofs.Build.TypeTable
import AccountLint.Proofs.Build.Draft
import AccountLint.Proofs.Build.Calls
import AccountLint.Proofs.Document.Meaning
import AccountLint.Proofs.Document.Retention
import AccountLint.Proofs.Document.Constructors
import AccountLint.Proofs.Document.Expressions
import AccountLint.Proofs.Document.Trees
import AccountLint.Proofs.Document.Statements
import AccountLint.Proofs.Document.Blocks
import AccountLint.Proofs.Document.Functions
import AccountLint.Proofs.Document.Types
import AccountLint.Proofs.Document.Load
import AccountLint.Proofs.Document.Losses
import AccountLint.Proofs.Document.Flaws
import AccountLint.Proofs.Document.FlawedExpressions
import AccountLint.Proofs.Document.FlawedFunctions
import AccountLint.Proofs.Document.Grounding
import AccountLint.Proofs.Document.Rejection
import AccountLint.Proofs.Document.Linting
import AccountLint.Proofs.Alias.Chains
import AccountLint.Proofs.Alias.Projections
import AccountLint.Proofs.Alias.FirstAssignment
import AccountLint.Proofs.Guard.DistinctFields
import AccountLint.Proofs.Sexp.Integers
import AccountLint.Proofs.Sexp.Rendering
import AccountLint.Proofs.Outcome
import AccountLint.Proofs.Text.Filling
import AccountLint.Proofs.Renumbering.Types
import AccountLint.Proofs.Renumbering.Facts
import AccountLint.Proofs.Renumbering.Guards
import AccountLint.Proofs.Renumbering.Groups
import AccountLint.Proofs.Renumbering.Sinks
import AccountLint.Proofs.Renumbering.Function
import AccountLint.Proofs.Renumbering.Verdict
import AccountLint.Proofs.Renumbering.Run
import AccountLint.Proofs.Cosplay.TypeSet
import AccountLint.Proofs.Cosplay.Verdict
import AccountLint.Proofs.Cosplay.Growth
import AccountLint.Proofs.Cosplay.Discriminants
import AccountLint.Proofs.Alias.Origins
import AccountLint.Proofs.Sink.TypedUses
import AccountLint.Proofs.Guard.DataClearing
import AccountLint.Proofs.Verdict.AccountClose
import AccountLint.Proofs.Sink.BorrowPairs
import AccountLint.Proofs.Program.Behind
import AccountLint.Proofs.Guard.FieldAccess
import AccountLint.Proofs.Text.Segments
import AccountLint.Proofs.Text.Generics
import AccountLint.Proofs.Program.Reach
import AccountLint.Proofs.Facts.Completeness
