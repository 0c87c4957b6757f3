import AccountLint.Config
import AccountLint.Verdict.Declarations
import AccountLint.Verdict.Function
import AccountLint.Verdict.Types

/-! Runs: all rules on a whole program. -/
namespace AccountLint

structure RunResult where
  diagnostics : List Diagnostic
  skipped : List String
  functions : List String
  deserializedTypes : Nat
  rules : List String
deriving DecidableEq, Inhabited

namespace RunResult

def errorCount (r : RunResult) : Nat := (r.diagnostics.filter (·.severity == .error)).length

def count (r : RunResult) (category : String) : Nat :=
  (r.diagnostics.filter (·.category == category)).length

/-- The categories with findings, in increasing order, and how many there are. -/
def byCategory (r : RunResult) : List (String × Nat) :=
  (sortTexts (distinct (r.diagnostics.map (·.category)))).map fun c => (c, r.count c)

def countIn (r : RunResult) (file : String) : Nat :=
  (r.diagnostics.filter (·.location.file == file)).length

def padded (width : Nat) (s : String) : String :=
  s ++ String.ofList (List.replicate (width - s.length) ' ')

def summary (r : RunResult) : String :=
  let head := "sealevel-lints: " ++ toString r.diagnostics.length ++ " diagnostic(s) from " ++
    toString r.rules.length ++ " rule(s)"
  let categories := r.byCategory.map fun (c, n) => "  " ++ padded 36 c ++ " " ++ toString n
  let skipped := if r.skipped.isEmpty then [] else ["  skipped: " ++ ", ".intercalate r.skipped]
  "\n".intercalate (head :: categories ++ skipped)

end RunResult

def mergedTypes (reports : List FunctionReport) : TypeSet :=
  reports.foldl (fun set r => if r.skipped then set else set.merge r.types) {}

def programFindings (p : Program) (rules : List Rule) (tags : List Value)
    (reports : List FunctionReport) : Except Fault (List Diagnostic) := do
  let functions := (reports.filter (!·.skipped)).flatMap (·.diagnostics)
  let types ← typeFindings p tags rules (mergedTypes reports)
  let declarations ← concatM (fun r => r.declarationFindings p) rules
  return Diagnostic.sort (functions ++ types ++ declarations)

/-- The outcome of some rules on a program, with the notes on the way. -/
def runRules (p : Program) (rules : List Rule) (tags : List Value) :
    Except Fault (RunResult × List Note) := do
  let reports ← p.functions.mapM (FunctionReport.ofFunction p rules)
  let diagnostics ← programFindings p rules tags (reports.map (·.1))
  let result : RunResult :=
    { diagnostics := diagnostics, skipped := (reports.filter (·.1.skipped)).map (·.1.function),
      functions := p.functions.map (·.name),
      deserializedTypes := (mergedTypes (reports.map (·.1))).size, rules := rules.map Rule.name }
  return (result,
    reports.flatMap (·.2) ++ [.analysed p.functions.length diagnostics.length])

/-- Runs the rules of a registry that a configuration leaves switched on. -/
def lint (g : Registry) (c : Config) (p : Program) : Except Fault (RunResult × List Note) := do
  let (g, notes) := c.apply g
  let (result, more) ← runRules p g.enabled c.tags
  return (result, notes ++ more)

end AccountLint
