import AccountLint.Fault

/-! Rules: what calls for a guard, which guards there are, and when a guard is enough. -/
namespace AccountLint

inductive Severity where
  | error
  | warning
  | style
  | performance
  | information
deriving DecidableEq, Inhabited

/-- When the guards of a rule are enough for a sink. -/
inductive Coverage where
  /-- Every path to the sink passes through a guard. -/
  | allPaths
  /-- There is a guard somewhere in the function. -/
  | presence
  /-- Never: every sink is reported. -/
  | unconditional
  /-- The verdict is about the types of the whole program. -/
  | structural
deriving DecidableEq, Inhabited

inductive SinkKind where
  | call
  | callArg
  | constructField
  | typedUse
  | zeroAssign
  | contextFunction
  | mutableBorrowPair
  | typedCall
  | seedBump
  | deserialize
deriving DecidableEq, Inhabited

/-- A pattern of sinks; which parameters are in use depends on the kind. -/
structure SinkPattern where
  kind : SinkKind
  targets : List String := []
  argument : Int := 0
  field : String := ""
  types : List String := []
  trait : String := ""
  fromAccountData : Bool := false
deriving DecidableEq, Inhabited

inductive GuardKind where
  | fieldRead
  | comparison
  | signerMarker
  | declaredConstraint
  | distinctConstraint
  | dataClear
deriving DecidableEq, Inhabited

/-- A pattern of guards; which parameters are in use depends on the kind. -/
structure GuardPattern where
  kind : GuardKind
  names : List String := []
  ops : List String := ["==", "!="]
  strip : List String := []
  calls : List String := []
deriving DecidableEq, Inhabited

inductive ExemptionKind where
  | wrapperConversion
  | closedAccountDiscriminator
deriving DecidableEq, Inhabited

structure Exemption where
  kind : ExemptionKind
  fact : String := ""
deriving DecidableEq, Inhabited

inductive DeclarationKind where
  | sysvarAccountFields
  | duplicateMutableFields
deriving DecidableEq, Inhabited

/-- A check of declarations, with the templates of its finding. -/
structure DeclarationCheck where
  kind : DeclarationKind
  message : String
  hint : String := ""
  label : String := ""
deriving DecidableEq, Inhabited

/-- A rule. The message and the hint are templates, which the sink fills. -/
structure Rule where
  category : Category
  errorId : String
  description : String
  sinks : List SinkPattern
  coverage : Coverage
  message : String
  guards : List GuardPattern := []
  exemptions : List Exemption := []
  declaration : Option DeclarationCheck := none
  hint : String := ""
  severity : Severity := .warning
  cwe : Int := 0
  enabled : Bool := true
deriving DecidableEq, Inhabited

/-- The name of a rule is that of its category. -/
def Rule.name (r : Rule) : String := r.category.id

def Category.parse (text : String) : Except Fault Category :=
  match Category.ofText? text with
  | some c => .ok c
  | none => .error (.config (.unknownCategory text))

end AccountLint
