import AccountLint.Checked
import AccountLint.Report.Diagnostic
import AccountLint.Rule.Paths
import AccountLint.Text.Template

/-! The verdict on the declarations of accounts. -/
namespace AccountLint

def Program.accountsStructs (p : Program) : Except Fault (List TypeDecl) :=
  collectM (fun t => do
    if !t.isStruct then return none
    return if ← t.hasFact TypeFact.accountsStruct then some t else none) p.types

/-- Names in running text, each between marks. -/
def enumerated (names : List String) : String :=
  let marked := names.map fun n => "`" ++ n ++ "`"
  let last := marked.getLastD ""
  match marked with
  | [a, b] => a ++ " and " ++ b
  | _ => ", ".intercalate marked.dropLast ++ ", and " ++ last

namespace Rule

def declared (r : Rule) (struct : TypeDecl) (message hint : String) (location : Location)
    (secondary : List Location) : Diagnostic :=
  { category := r.name, errorId := r.errorId, message := message, severity := r.severity,
    location := location, secondary := secondary, hint := hint, confidence := .high, cwe := r.cwe,
    evidence := .declaration struct.path }

/-- The sysvar that a field passes although it could be read without an account. -/
def passedSysvar? (p : Program) (d : FieldDecl) : Except Fault (Option (FieldDecl × String)) := do
  match ← p.type? d.type with
  | none => return none
  | some t =>
    if !(← pathMatches Paths.sysvar (some t.path)) then return none
    match ← p.type? (← p.innerType d.type) with
    | none => return none
    | some s =>
      let name ← s.name
      return if Paths.gettableSysvarAccounts.contains name then some (d, name) else none

def passedSysvars (r : Rule) (check : DeclarationCheck) (p : Program) (struct : TypeDecl) :
    Except Fault (List Diagnostic) := do
  match ← collectM (passedSysvar? p) struct.fields with
  | [] => return []
  | [(d, name)] =>
    let message ← Template.fill [("sysvar", .text name)] check.message
    return [r.declared struct message check.hint struct.location [d.location]]
  | passed =>
    let message := "Use `Sysvar::get` instead of passing the accounts for " ++
      enumerated (passed.map (·.1.name.display)) ++ "."
    return [r.declared struct message check.hint struct.location (passed.map (·.1.location))]

def mutableAccount? (p : Program) (d : FieldDecl) : Except Fault (Option (FieldDecl × TypeRef)) := do
  match ← p.type? d.type with
  | none => return none
  | some t =>
    if !d.constraints.contains (.text "mut") then return none
    if !(← pathMatches Paths.account (some t.path)) then return none
    return (← p.innerType d.type).map (d, ·)

/-- Whether one of two fields is declared to differ from the other. -/
def areDistinct (a b : FieldDecl) : Except Fault Bool := do
  if ← b.name.isIn a.distinctFrom then return true else a.name.isIn b.distinctFrom

def duplicatePair (r : Rule) (check : DeclarationCheck) (struct : TypeDecl)
    (pair : FieldDecl × FieldDecl) : Except Fault (Option Diagnostic) := do
  let (a, b) := pair
  if ← areDistinct a b then return none
  let fields := [("first", a.name), ("second", b.name)]
  let message ← Template.fill fields check.message
  let hint ← Template.fill fields check.hint
  return some (r.declared struct message hint a.location [b.location])

def duplicateAccounts (r : Rule) (check : DeclarationCheck) (p : Program) (struct : TypeDecl) :
    Except Fault (List Diagnostic) := do
  let found ← collectM (mutableAccount? p) struct.fields
  let inners ← TypeRef.sorted (distinct (found.map (·.2)))
  collectM (r.duplicatePair check struct)
    (inners.flatMap fun t => pairs ((found.filter (·.2 == t)).map (·.1)))

def declarationFindings (r : Rule) (p : Program) : Except Fault (List Diagnostic) :=
  match r.declaration with
  | none => .ok []
  | some check => do
    let structs ← p.accountsStructs
    concatM (fun s =>
      match check.kind with
      | .sysvarAccountFields => r.passedSysvars check p s
      | .duplicateMutableFields => r.duplicateAccounts check p s) structs

end Rule
end AccountLint
