import AccountLint.Checked
import AccountLint.Facts
import AccountLint.Rule.Basic
import AccountLint.Rule.Paths

/-! Exemptions: when an operation calls for no guard after all. -/
namespace AccountLint
namespace Facts

def firstOrigin {β : Type} (f : Facts) (step : Int → Except Fault (Option β)) (i : Int) :
    Except Fault (Option β) := do
  let (is, fault) := f.aliases.origins i
  match ← firstM step is with
  | some b => return some b
  | none =>
    match fault with
    | none => return none
    | some e => throw e

/-- Whether a value has a type with a fact, or is the account of one. -/
def establishes (f : Facts) (fact : String) (i : Int) : Except Fault Bool := do
  let e ← f.function.expr i
  if e.isMethodCall && e.name == some (.text "to_account_info") then
    if ← hasFact (← f.typeOf e.receiver) fact then return true
  hasFact (← f.typeOf (some i)) fact

def derivesFrom (f : Facts) (fact : String) (i : Int) : Except Fault Bool := do
  let found ← f.firstOrigin (fun o => do return if ← f.establishes fact o then some () else none) i
  return found.isSome

def markerLength : Nat := 8

/-- Whether an expression may be the marker of a closed account, by its length. -/
def isMarker (f : Facts) (i : Int) : Except Fault Bool := do
  let byValue : Except Fault Bool := do
    let e ← f.function.expr i
    match e.kind, e.value with
    | .literal, .bytes bs => return bs.length == markerLength
    | .literal, .list xs => return xs.length == markerLength
    | _, _ => return false
  match ← f.typeOf (some i) with
  | some t => if t.kind == .array then return t.length == some (markerLength : Int) else byValue
  | none => byValue

/-- Whether an expression copies into account data, and whether one compares with a marker, given
what was found before. -/
def markerStep (f : Facts) (found : Bool × Bool) (l : Int × Expr) : Except Fault (Bool × Bool) := do
  let (copies, compares) := found
  let e := l.2
  if e.isMethodCall && e.name == some (.text "copy_from_slice") then
    let path ← f.pathOf e.receiver
    return (copies || path.any (·.mentions "data"), compares)
  if e.kind == .compare && (e.name == some (.text "==") || e.name == some (.text "!=")) then
    if compares then return found
    return (copies, ← anyM f.isMarker e.operands)
  return found

def marksClosed (f : Facts) : Except Fault Bool := do
  let (copies, compares) ← f.located.foldlM f.markerStep (false, false)
  return copies && compares

end Facts

def Rule.exemptsFunction (r : Rule) (f : Facts) : Except Fault Bool :=
  anyM (fun x => if x.kind == .closedAccountDiscriminator then f.marksClosed else .ok false)
    r.exemptions

def Rule.exemptsExpr (r : Rule) (f : Facts) (i : Int) : Except Fault Bool :=
  anyM (fun x => if x.kind == .wrapperConversion then f.derivesFrom x.fact i else .ok false)
    r.exemptions

end AccountLint
