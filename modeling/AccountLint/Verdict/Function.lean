import AccountLint.Cosplay.TypeSet
import AccountLint.Guard
import AccountLint.Report.Diagnostic
import AccountLint.Report.Note
import AccountLint.Sink.Classification
import AccountLint.Text.Template

/-! The verdict on a function: the sinks of every rule that its guards do not cover. -/
namespace AccountLint
namespace Rule

/-- Whether the guards of a rule are enough for a sink: they may have to be passed on every path to
it, or just to be there. -/
def isCovered (r : Rule) (f : Facts) (guards : List Guard) (s : Sink) : Bool :=
  if s.unconditional then false
  else
    let covering := guards.filter (·.covers s.paths)
    match r.coverage with
    | .allPaths => f.function.graph.setDominates (covering.map (·.block)) s.block
    | .presence => !covering.isEmpty
    | .unconditional | .structural => false

def confidenceIn (r : Rule) (guards : List Guard) (s : Sink) : Confidence :=
  if r.coverage == .unconditional || s.unconditional || guards.isEmpty then .high else .medium

def finding (r : Rule) (f : Facts) (guards : List Guard) (s : Sink) : Except Fault Diagnostic := do
  let fields := (← s.fields).map fun (name, text) => (name, Value.text text)
  let message ← Template.fill fields (if s.message.isEmpty then r.message else s.message)
  let hint ← Template.fill fields r.hint
  return { category := r.name, errorId := r.errorId, message := message, severity := r.severity,
           location := s.location, secondary := s.secondary, hint := hint,
           confidence := r.confidenceIn guards s, cwe := r.cwe, function := f.function.name,
           evidence := .sink s.block (← s.pathTexts) guards.length }

def relevantGuards (r : Rule) (f : Facts) : Except Fault (List Guard) :=
  if r.coverage == .unconditional then .ok [] else r.guardsIn f

/-- The findings for those of some sinks that are not covered. -/
def findings (r : Rule) (f : Facts) (sinks : List Sink) : Except Fault (List Diagnostic) :=
  if sinks.isEmpty then .ok []
  else do
    let guards ← r.relevantGuards f
    collectM (fun s => do
      if r.isCovered f guards s then return none else return some (← r.finding f guards s)) sinks

end Rule

def TypeSet.ofSinks (function : String) (sinks : List Sink) : TypeSet :=
  .ofSites (sinks.filterMap fun s => s.type.map fun t => ⟨t, function, s.location⟩)

structure FunctionReport where
  function : String
  diagnostics : List Diagnostic := []
  types : TypeSet := {}
  skipped : Bool := false
deriving DecidableEq, Inhabited

namespace FunctionReport

/-- Adds what a rule has to say: findings or, if it is about types, types. -/
def extend (report : FunctionReport) (f : Facts) (r : Rule) : Except Fault FunctionReport :=
  if r.sinks.isEmpty then .ok report
  else do
    let sinks ← r.sinksIn f
    if r.coverage == .structural then
      return { report with types := report.types.merge (.ofSinks f.function.name sinks) }
    return { report with diagnostics := report.diagnostics ++ (← r.findings f sinks) }

def ofBody (p : Program) (rules : List Rule) (f : Function) : Except Fault FunctionReport := do
  let facts ← Facts.build p f
  rules.foldlM (fun report r => report.extend facts r) { function := f.name }

/-- The report on a function. One without a body or with a malformed one is skipped with a note; any
other fault ends the run. -/
def ofFunction (p : Program) (rules : List Rule) (f : Function) :
    Except Fault (FunctionReport × List Note) :=
  if !f.modeled then .ok ({ function := f.name, skipped := true }, [.notModeled f.name])
  else
    match ofBody p rules f with
    | .ok report => .ok (report, [])
    | .error e =>
      if e.rejectsModel then .ok ({ function := f.name, skipped := true }, [.rejected f.name e])
      else .error e

end FunctionReport
end AccountLint
