import AccountLint.Checked
import AccountLint.Facts
import AccountLint.Rule.Basic
import AccountLint.Rule.Paths

/-! Guards: where a function checks something, and which places the check is about. Checks that a
declaration implies hold in the whole body, and stand at its entry. -/
namespace AccountLint

/-- A check of some places. -/
structure Guard where
  category : Category
  kind : GuardKind
  block : Int
  paths : List AccessPath
  location : Location := {}
deriving DecidableEq, Inhabited

/-- A guard covers places if it is about all of them. -/
def Guard.covers (g : Guard) (paths : List AccessPath) : Bool :=
  paths.all fun p => g.paths.any (·.same p)

/-- The place of a declared field, or of the use of a field that has none. -/
def FieldDecl.placeFor (d : FieldDecl) (e : Expr) : Location :=
  if d.location = {} then e.location else d.location

def FieldDecl.hasAny (d : FieldDecl) (names : List String) : Bool :=
  d.constraints.any fun c => names.any fun n => c.same (.text n)

/-- The declaration of the field that an expression accesses. -/
def Facts.declaredField (f : Facts) (e : Expr) : Except Fault (Option FieldDecl) :=
  match e.kind, e.receiver with
  | .field, some r => do
    match ← f.program.structBehind (← f.function.expr r).type with
    | none => return none
    | some owner => return owner.fieldNamed? (AccessPath.stepOf e.name)
  | _, _ => .ok none

namespace GuardPattern

def guard (p : GuardPattern) (c : Category) (block : Int) (paths : List AccessPath)
    (location : Location) : Except Fault Guard := do
  return ⟨c, p.kind, block, ← AccessPath.setOf paths, location⟩

/-- A read of a field is a check of what has the field. -/
def fieldRead (p : GuardPattern) (f : Facts) (c : Category) (l : Int × Expr) :
    Except Fault (Option Guard) := do
  let (block, e) := l
  if e.kind != .field then return none
  if !(← e.nameIn p.names) then return none
  return some (← p.guard c block (← f.pathOf e.receiver).toList e.location)

def compared (p : GuardPattern) (e : Expr) : Except Fault (List Int) := do
  match e.kind with
  | .compare => if ← e.nameIn p.ops then return e.operands else return []
  | .call =>
    if e.isMethodCall then
      if ← e.nameIn ["eq", "ne"] then return e.children else return []
    else if ← matchesAny p.calls e.name then return e.operands else return []
  | _ => return []

/-- The places that a comparison of a place is about: itself and, where the last projection is to be
stripped, what it starts from. -/
def aboutPlace (p : GuardPattern) (path : AccessPath) : List AccessPath :=
  match path.last?, path.parent? with
  | some step, some parent =>
    if p.strip.any fun s => step == .text s then [path, parent] else [path]
  | _, _ => [path]

def aboutOperand (p : GuardPattern) (f : Facts) (i : Int) : Except Fault (List AccessPath) := do
  match ← f.pathOf (some i) with
  | none => return []
  | some path => AccessPath.setOf (p.aboutPlace path)

/-- A comparison is a check of its operands. -/
def comparison (p : GuardPattern) (f : Facts) (c : Category) (l : Int × Expr) :
    Except Fault (Option Guard) := do
  let (block, e) := l
  match ← p.compared e with
  | [] => return none
  | operands =>
    return some (← p.guard c block (← concatM (p.aboutOperand f) operands) e.location)

/-- The struct of accounts behind the type of a parameter: behind its field `accounts`, or else
behind its generic arguments. -/
def accountsOf (f : Facts) (type : Option TypeRef) : Except Fault (Option TypeDecl) := do
  match ← f.program.type? type with
  | none => return none
  | some t =>
    let field := (t.fieldNamed? (.text "accounts")).toList.map (·.type)
    firstM f.program.structBehind (field ++ t.args)

def isSigner (p : GuardPattern) (f : Facts) (d : FieldDecl) : Except Fault Bool :=
  if d.hasAny p.names then .ok true
  else do hasFact (← f.program.type? d.type) TypeFact.signer

/-- A parameter that signs, or whose accounts hold one that does, is a check of the signer. -/
def signerMarker (p : GuardPattern) (f : Facts) (c : Category) (param : Param) :
    Except Fault (List Guard) := do
  if ← hasFact (← f.program.type? param.type) TypeFact.signer then
    return [← p.guard c f.function.entry [⟨param.name, []⟩] param.location]
  match ← accountsOf f param.type with
  | none => return []
  | some accounts =>
    collectM (fun d => do
      if ← p.isSigner f d then
        let path : AccessPath := ⟨param.name, [.text "accounts", d.name]⟩
        return some (← p.guard c f.function.entry [path] d.location)
      return none) accounts.fields

/-- The use of a field with a constraint is a check of the field. -/
def declaredConstraint (p : GuardPattern) (f : Facts) (c : Category) (l : Int × Expr) :
    Except Fault (Option Guard) := do
  match ← f.declaredField l.2 with
  | none => return none
  | some d =>
    if !d.hasAny p.names then return none
    let path ← f.pathOf (some l.2.id)
    return some (← p.guard c f.function.entry path.toList (d.placeFor l.2))

/-- The use of a field that must differ from others is a check of all of them. -/
def distinctConstraint (p : GuardPattern) (f : Facts) (c : Category) (l : Int × Expr) :
    Except Fault (Option Guard) := do
  match ← f.declaredField l.2 with
  | none => return none
  | some d =>
    if d.distinctFrom.isEmpty then return none
    match ← f.pathOf (some l.2.id) with
    | none => return none
    | some path =>
      match path.parent? with
      | none => return none
      | some parent =>
        let others := (← sortedSet d.distinctFrom).map fun n => parent.extend [n]
        return some (← p.guard c f.function.entry (path :: others) (d.placeFor l.2))

/-- What comes before the first projection with one of some names. -/
def beforeStep (names : List String) : List Value → Except Fault (Option (List Value))
  | [] => .ok none
  | s :: rest => do
    if ← s.isOneOf names then return some []
    return (← beforeStep names rest).map (s :: ·)

/-- The account that a place inside its data belongs to. -/
def accountOf (p : GuardPattern) : Option AccessPath → Except Fault (Option AccessPath)
  | none => .ok none
  | some path => do
    return (← beforeStep p.names path.projections).map fun steps => { path with projections := steps }

/-- An assignment of zero to data in a loop clears the data. -/
def clearingStore (p : GuardPattern) (f : Facts) (loops : List Int) (c : Category)
    (root : Int × Stmt) : Except Fault (Option Guard) := do
  let (block, s) := root
  match s.kind, s.target with
  | .assign, some target =>
    if !loops.contains block then return none
    if !(← f.isZero s.value) then return none
    match ← p.accountOf (← f.targetPath target) with
    | none => return none
    | some account => return some (← p.guard c block [account] s.location)
  | _, _ => return none

/-- A call that fills data clears the data. -/
def clearingCall (p : GuardPattern) (f : Facts) (c : Category) (l : Int × Expr) :
    Except Fault (Option Guard) := do
  let (block, e) := l
  if e.kind != .call then return none
  if !(← matchesAny p.calls e.name) then return none
  let target := if e.isMethodCall then e.receiver else e.operands.head?
  match ← p.accountOf (← f.pathOf target) with
  | none => return none
  | some account => return some (← p.guard c block [account] e.location)

def guards (p : GuardPattern) (f : Facts) (c : Category) : Except Fault (List Guard) :=
  match p.kind with
  | .fieldRead => collectM (p.fieldRead f c) f.located
  | .comparison => collectM (p.comparison f c) f.located
  | .signerMarker => concatM (p.signerMarker f c) f.function.params
  | .declaredConstraint => collectM (p.declaredConstraint f c) f.located
  | .distinctConstraint => collectM (p.distinctConstraint f c) f.located
  | .dataClear => do
    let stores ← collectM (p.clearingStore f f.loopBlocks c) f.function.roots
    let calls ← collectM (p.clearingCall f c) f.located
    return stores ++ calls

end GuardPattern

def Rule.guardsIn (r : Rule) (f : Facts) : Except Fault (List Guard) :=
  concatM (fun p => p.guards f r.category) r.guards

end AccountLint
