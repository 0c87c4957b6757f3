import AccountLint.Interchange.Program
import AccountLint.Rule.Registry

/-! Rules as records. -/
namespace AccountLint.Interchange

def coverageWords : List (String × Coverage) :=
  [("ALL_PATHS", .allPaths), ("PRESENCE", .presence), ("UNCONDITIONAL", .unconditional),
   ("STRUCTURAL", .structural)]

def sinkWords : List (String × SinkKind) :=
  [("CALL", .call), ("CALL_ARG", .callArg), ("CONSTRUCT_FIELD", .constructField),
   ("TYPED_USE", .typedUse), ("ZERO_ASSIGN", .zeroAssign), ("CONTEXT_FUNCTION", .contextFunction),
   ("MUTABLE_BORROW_PAIR", .mutableBorrowPair), ("TYPED_CALL", .typedCall),
   ("SEED_BUMP", .seedBump), ("DESERIALIZE", .deserialize)]

def guardWords : List (String × GuardKind) :=
  [("FIELD_READ", .fieldRead), ("COMPARISON", .comparison), ("SIGNER_MARKER", .signerMarker),
   ("DECLARED_CONSTRAINT", .declaredConstraint), ("DISTINCT_CONSTRAINT", .distinctConstraint),
   ("DATA_CLEAR", .dataClear)]

def exemptionWords : List (String × ExemptionKind) :=
  [("WRAPPER_CONVERSION", .wrapperConversion),
   ("CLOSED_ACCOUNT_DISCRIMINATOR", .closedAccountDiscriminator)]

def declarationWords : List (String × DeclarationKind) :=
  [("SYSVAR_ACCOUNT_FIELDS", .sysvarAccountFields),
   ("DUPLICATE_MUTABLE_FIELDS", .duplicateMutableFields)]

def severityWords : List (String × Severity) :=
  [("error", .error), ("warning", .warning), ("style", .style), ("performance", .performance),
   ("information", .information)]

def wordOf {α : Type} (words : List (String × α)) (key : String) (default : α) (v : Value) : α :=
  (words.lookup (textOf key v)).getD default

def toWord {α : Type} [BEq α] (words : List (String × α)) (x : α) : Value :=
  .text (((words.find? fun w => w.2 == x).map (·.1)).getD "")

def textsOf (key : String) (v : Value) : List String := (items key v).filterMap Value.text?

def sinkPattern (v : Value) : SinkPattern :=
  { kind := wordOf sinkWords "kind" .call v, targets := textsOf "targets" v,
    argument := intOf "argument" 0 v, field := textOf "field" v, types := textsOf "types" v,
    trait := textOf "trait" v, fromAccountData := v.field? "from_account_data" == some (.bool true) }

def guardPattern (v : Value) : GuardPattern :=
  { kind := wordOf guardWords "kind" .fieldRead v, names := textsOf "names" v,
    ops := if (present? "ops" v).isSome then textsOf "ops" v else ["==", "!="],
    strip := textsOf "strip" v, calls := textsOf "calls" v }

def exemption (v : Value) : Exemption :=
  { kind := wordOf exemptionWords "kind" .wrapperConversion v, fact := textOf "fact" v }

def declaration (v : Value) : DeclarationCheck :=
  { kind := wordOf declarationWords "kind" .sysvarAccountFields v, message := textOf "message" v,
    hint := textOf "hint" v, label := textOf "label" v }

/-- The given field, or what is there already. -/
def replaced {α : Type} (v : Value) (key : String) (old : α) (read : Value → α) : α :=
  ((v.field? key).map read).getD old

def listed {α : Type} (read : Value → α) : Value → List α
  | .list xs => xs.map read
  | _ => []

/-- A rule: the one of a category, perhaps with some fields replaced. -/
def rule : Value → Except Fault Rule
  | .text s => do return Rule.ofCategory (← Category.parse s)
  | v => do
    let r := Rule.ofCategory (← Category.parse (textOf "base" v))
    let category ← match v.field? "category" with
      | some (.text s) => Category.parse s
      | _ => pure r.category
    let text (old : String) (x : Value) : String := x.text?.getD old
    return {
      category := category
      errorId := replaced v "error_id" r.errorId (text r.errorId)
      description := replaced v "description" r.description (text r.description)
      sinks := replaced v "sinks" r.sinks (listed sinkPattern)
      coverage := wordOf coverageWords "coverage" r.coverage v
      message := replaced v "message" r.message (text r.message)
      guards := replaced v "guards" r.guards (listed guardPattern)
      exemptions := replaced v "exemptions" r.exemptions (listed exemption)
      declaration := replaced v "declaration" r.declaration fun d =>
        if d == .null then none else some (declaration d)
      hint := replaced v "hint" r.hint (text r.hint)
      severity := wordOf severityWords "severity" r.severity v
      cwe := intOf "cwe" r.cwe v
      enabled := replaced v "enabled" r.enabled (· == .bool true) }

def ofTextSet (xs : List String) : Value := ofTexts (sortTexts (distinct xs))

def ofSinkPattern (p : SinkPattern) : Value :=
  .ofFields [("kind", toWord sinkWords p.kind), ("targets", ofTexts p.targets),
    ("argument", .int p.argument), ("field", .text p.field), ("types", ofTextSet p.types),
    ("trait", .text p.trait), ("from_account_data", .bool p.fromAccountData)]

def ofGuardPattern (p : GuardPattern) : Value :=
  .ofFields [("kind", toWord guardWords p.kind), ("names", ofTextSet p.names),
    ("ops", ofTextSet p.ops), ("strip", ofTextSet p.strip), ("calls", ofTexts p.calls)]

def ofDeclaration (d : DeclarationCheck) : Value :=
  .ofFields [("kind", toWord declarationWords d.kind), ("message", .text d.message),
    ("hint", .text d.hint), ("label", .text d.label)]

def ofRule (r : Rule) : Value :=
  .ofFields [("category", .text r.category.id), ("error_id", .text r.errorId),
    ("description", .text r.description), ("coverage", toWord coverageWords r.coverage),
    ("message", .text r.message), ("hint", .text r.hint),
    ("severity", toWord severityWords r.severity), ("cwe", .int r.cwe),
    ("enabled", .bool r.enabled), ("name", .text r.name),
    ("sinks", .list (r.sinks.map ofSinkPattern)), ("guards", .list (r.guards.map ofGuardPattern)),
    ("exemptions", .list (r.exemptions.map fun x =>
      .ofFields [("kind", toWord exemptionWords x.kind), ("fact", .text x.fact)])),
    ("declaration", (r.declaration.map ofDeclaration).getD .null)]

end AccountLint.Interchange
