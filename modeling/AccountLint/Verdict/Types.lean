import AccountLint.Cosplay.Verdict
import AccountLint.Report.Diagnostic
import AccountLint.Text.Template

/-! The verdict on the deserialized types of a program. -/
namespace AccountLint

def ambiguousEnumMessage : String :=
  "`{type}` is one of several enums deserialized from account data; " ++
    "their variants cannot be told apart"

namespace Rule

def typeFinding (r : Rule) (set : TypeSet) (v : TypeVerdict) : Except Fault Diagnostic :=
  match v.sites with
  | [] => .error .bounds
  | first :: rest => do
    let fields := [("type", Value.text (← v.type.name))]
    let message ← Template.fill fields (if v.ambiguous then ambiguousEnumMessage else r.message)
    let hint ← Template.fill fields r.hint
    return { category := r.name, errorId := r.errorId, message := message, severity := r.severity,
             location := first.location, secondary := rest.map (·.location), hint := hint,
             confidence := .medium, cwe := r.cwe, function := first.function,
             evidence := .types v.type.path set.size }

end Rule

/-- The findings about types, by the first rule that is about them. -/
def typeFindings (p : Program) (tags : List Value) (rules : List Rule) (set : TypeSet) :
    Except Fault (List Diagnostic) :=
  match rules.find? (·.coverage == .structural) with
  | none => .ok []
  | some r => do
    let verdicts ← set.verdict p tags
    verdicts.mapM (r.typeFinding set)

end AccountLint
