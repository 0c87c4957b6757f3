import AccountLint.Sink.Exemption

/-! Bump seeds: where the last seed of a derived address comes from. -/
namespace AccountLint

inductive BumpOrigin where
  /-- A field of an account whose declaration constrains the bump. -/
  | constrained
  /-- A field of an account. -/
  | account
  /-- A field of another struct. -/
  | struct
  /-- No field at all. -/
  | other
deriving DecidableEq, Inhabited

def BumpOrigin.message : BumpOrigin → String
  | .account => "Bump seed comes from anchor Account, use anchor's " ++
      "#[account(seed=..., bump=...)] macro instead"
  | .struct => "Bump seed comes from structure, ensure it is constrained to a single " ++
      "value and not user-controlled."
  | .constrained | .other => ""

namespace Facts

/-- The last of the expressions that an expression was derived from. -/
def source (f : Facts) (i : Int) : Except Fault Expr := do
  f.function.expr ((← f.aliases.originList i).getLastD i)

/-- The bump of a list of seeds: the only element of its last one, if there are others. -/
def bumpOf (f : Facts) (seeds : Int) : Except Fault (Option Int) := do
  let outer ← f.source seeds
  match outer.kind, outer.operands with
  | .construct, a :: b :: rest =>
    let inner ← f.source ((b :: rest).getLastD a)
    match inner.kind, inner.operands with
    | .construct, [bump] => return some bump
    | _, _ => return none
  | _, _ => return none

/-- Whether an expression is a field whose declaration constrains the bump. -/
def declaresBump (f : Facts) (i : Int) : Except Fault Bool := do
  let e ← f.source i
  match e.kind, e.receiver with
  | .field, some r =>
    match ← f.program.structBehind (← f.function.expr r).type with
    | none => return false
    | some owner =>
      return (owner.fieldNamed? (AccessPath.stepOf e.name)).any fun d =>
        d.constraints.contains (.text "bump")
  | _, _ => return false

/-- What a struct that a bump is read from is, seen through the type it is reached by. -/
def bumpHolder (f : Facts) (owner : TypeDecl) (type : Option TypeRef) :
    Except Fault BumpOrigin := do
  let wrapper ← f.program.type? type
  if ← owner.hasTrait Paths.accountDeserialize then return .account
  match wrapper with
  | none => return .struct
  | some w =>
    if ← matchesAny [Paths.account, Paths.accountLoader] (some w.path) then return .account
    return .struct

/-- Where a bump comes from, as far as one expression tells. -/
def bumpStep (f : Facts) (i : Int) : Except Fault (Option BumpOrigin) := do
  let e ← f.function.expr i
  match e.kind, e.receiver with
  | .field, some r =>
    if ← f.declaresBump r then return some .constrained
    let type := (← f.function.expr r).type
    match ← f.program.structBehind type with
    | none => return none
    | some owner => return some (← f.bumpHolder owner type)
  | _, _ => return none

def bumpOrigin (f : Facts) (i : Int) : Except Fault BumpOrigin := do
  return (← f.firstOrigin f.bumpStep i).getD .other

end Facts
end AccountLint
