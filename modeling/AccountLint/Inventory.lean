import AccountLint.Rule.Category
import AccountLint.Sorting

/-! What the package offers, as it is listed to its users. -/
namespace AccountLint.Inventory

def package : String := "sealevel_lints"

def version : String := "0.4.0"

/-- The parts of the package, and the names that each offers. -/
def parts : List (String × List String) :=
  [("errors", ["SealevelLintError", "ModelError", "ModelLoadError", "ConfigError"]),
   ("program_model", ["SourceLocation", "TypeKind", "FieldDef", "TypeDescriptor", "ExprKind", "Expr",
     "StmtKind", "Statement", "BasicBlock", "Param", "LocalVar", "FunctionModel", "ProgramModel"]),
   ("model_builder", ["ProgramBuilder", "FunctionBuilder"]),
   ("ctrlflow_analysis", ["DominatorTree", "reverse_postorder"]),
   ("alias_analysis", ["AccessPath", "AliasSet", "AliasTracker"]),
   ("rules", ["Category", "CoveragePolicy", "RuleDescriptor", "RuleRegistry", "DEFAULT_RULES"]),
   ("guards", ["Guard", "GuardDetector"]),
   ("sinks", ["Sink", "SinkClassifier"]),
   ("type_analysis", ["DiscriminatedTypeSet", "StructuralTypeAnalyzer"]),
   ("diagnostics", ["Diagnostic", "DiagnosticSeverity", "Confidence"]),
   ("config", ["AnalysisConfig", "configure_logging"]),
   ("checkers", ["LintRunner", "LintRunResults", "VerdictEngine", "analyse"]),
   ("model_loader", ["load_program", "load_program_file"])]

def partNames : List String := sortTexts (parts.map (·.1))

def offered : List String := parts.flatMap (·.2) ++ ["list_submodules", "package_info"]

def categories : List String := Category.all.map Category.id

end AccountLint.Inventory
