import AccountLint.Cosplay.Verdict
import AccountLint.Guard
import AccountLint.Interchange.Rules
import AccountLint.Report.Diagnostic
import AccountLint.Sink.Basic

/-! Paths, guards, sinks and diagnostics as records. -/
namespace AccountLint.Interchange

/-- A path as a list: its root, then its projections. -/
def ofPath (p : AccessPath) : Value := .list (p.root :: p.projections)

def ofPath? (p : Option AccessPath) : Value := (p.map ofPath).getD .null

def ofPaths (ps : List AccessPath) : Except Fault Value := do
  return .list ((← AccessPath.sorted ps).map ofPath)

def path : Value → AccessPath
  | .list (root :: steps) => ⟨root, steps⟩
  | _ => ⟨.text "", []⟩

def ofGuard (g : Guard) : Except Fault Value := do
  return .ofFields [("category", .text g.category.id), ("kind", toWord guardWords g.kind),
    ("block", .int g.block), ("paths", ← ofPaths g.paths), ("loc", ofLocation g.location)]

def ofSink (s : Sink) : Except Fault Value := do
  let fields ← s.fields
  return .ofFields [("category", .text s.category.id), ("block", .int s.block),
    ("paths", ← ofPaths s.paths), ("loc", ofLocation s.location), ("expr", ofInt? s.expr),
    ("type", ofInt? s.type),
    ("details", .list (s.details.map fun (k, v) => .list [.text k, .text v])),
    ("secondary", .list (s.secondary.map ofLocation)), ("message", .text s.message),
    ("unconditional", .bool s.unconditional),
    ("fields", .ofFields (fields.map fun (k, v) => (k, .text v)))]

def ofSite (s : DeserializationSite) : Value :=
  .ofFields [("type", .int s.type), ("function", .text s.function), ("loc", ofLocation s.location)]

/-- The sites of a set of types, by type. -/
def ofTypeSet (s : TypeSet) : Value :=
  .list (s.ids.map fun i => .list ((s.sitesOf i).map ofSite))

def confidenceWords : List (String × Confidence) := [("HIGH", .high), ("MEDIUM", .medium)]

def ofEvidence : Evidence → Value
  | .none => .ofFields []
  | .sink block paths guards =>
    .ofFields [("block", .int block), ("paths", ofTexts paths), ("guards", .int guards)]
  | .types path n => .ofFields [("type", path), ("deserialized_types", .int n)]
  | .declaration path => .ofFields [("struct", path)]

/-- A finding as a record with all of its parts. -/
def ofDiagnostic (d : Diagnostic) : Value :=
  .ofFields [("category", .text d.category), ("error_id", .text d.errorId),
    ("message", .text d.message), ("severity", toWord severityWords d.severity),
    ("loc", ofLocation d.location), ("secondary", .list (d.secondary.map ofLocation)),
    ("hint", .text d.hint), ("confidence", toWord confidenceWords d.confidence),
    ("cwe", .int d.cwe), ("function", .text d.function), ("evidence", ofEvidence d.evidence)]

def diagnostic (v : Value) : Diagnostic :=
  { category := textOf "category" v, errorId := textOf "error_id" v, message := textOf "message" v,
    severity := wordOf severityWords "severity" .warning v, location := locationOf v,
    secondary := (items "secondary" v).map location, hint := textOf "hint" v,
    confidence := wordOf confidenceWords "confidence" .medium v, cwe := intOf "cwe" 0 v,
    function := textOf "function" v }

end AccountLint.Interchange
