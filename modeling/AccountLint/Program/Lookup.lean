import AccountLint.Fault
import AccountLint.Program.Basic
import AccountLint.Text.Segments
import AccountLint.ValueSet

/-! Looking up types, expressions and blocks, and checking that a function is well formed. -/
namespace AccountLint

/-- The last segment of the path of a type. -/
def TypeDecl.name (t : TypeDecl) : Except Fault String :=
  match t.path with
  | .text s => .ok (Text.lastSegment s)
  | _ => .error .notText

/-- References to types in increasing order, if they are of one sort. -/
def TypeRef.sorted (ts : List TypeRef) : Except Fault (List TypeRef) := do
  let keys := ts.map fun t =>
    match t with
    | .index i => Value.int i
    | .unresolved s => .text s
  return (← sortedSet keys).map fun k =>
    match k with
    | .int i => .index i
    | k => .unresolved k.display

def typeAt? (types : List TypeDecl) (i : Int) : Option TypeDecl :=
  if 0 ≤ i then types[i.toNat]? else none

/-- The type that a reference stands for; no reference stands for no type. -/
def Program.type? (p : Program) : Option TypeRef → Except Fault (Option TypeDecl)
  | none => .ok none
  | some (.unresolved _) => .error .shape
  | some (.index i) =>
    match typeAt? p.types i with
    | some t => .ok (some t)
    | none => .error (.model (.typeRange i))

def Program.typeByPath? (p : Program) (path : Name) : Option TypeDecl :=
  p.types.find? fun t => t.path.same path

def Program.function? (p : Program) (name : String) : Option Function :=
  p.functions.find? fun f => f.name == name

def Program.enums (p : Program) : List TypeDecl := p.types.filter TypeDecl.isEnum

namespace Function

/-- The expression at a position; a negative position counts from the end. -/
def expr (f : Function) (i : Int) : Except Fault Expr :=
  match fromEnd? f.exprs i with
  | some e => .ok e
  | none => .error (.model (.exprRange f.name i))

def targetExpr (f : Function) : Target → Except Fault Expr
  | .expr i => f.expr i
  | .other _ => .error .shape

def block (f : Function) (i : Int) : Except Fault Block :=
  match fromEnd? f.blocks i with
  | some b => .ok b
  | none => .error (.model (.blockRange f.name i))

def localType? (f : Function) (name : Name) : Option TypeRef :=
  match f.params.find? fun p => p.name.same name with
  | some p => p.type
  | none =>
    match f.locals.find? fun v => v.name.same name with
    | some v => v.type
    | none => none

/-- The statements with the ids of their blocks, in block order. -/
def roots (f : Function) : List (Int × Stmt) :=
  f.blocks.flatMap fun b => b.stmts.map fun s => (b.id, s)

/-- The expressions of a tree, each before its children, down to a depth. -/
def walkFrom (f : Function) : Nat → Int → Except Fault (List Expr)
  | 0, _ => .ok []
  | depth + 1, i => do
    let e ← f.expr i
    let below ← e.children.mapM (walkFrom f depth)
    return e :: below.flatten

/-- The expressions of the tree at a position, each before its children. A tree is at most as deep
as there are expressions. -/
def walk (f : Function) (i : Int) : Except Fault (List Expr) := f.walkFrom (f.exprs.length + 1) i

def walkTarget (f : Function) : Target → Except Fault (List Expr)
  | .expr i => f.walk i
  | .other _ => .error .shape

def checkRef (f : Function) (limit : Int) (site : Site) (i : Int) : Except Fault Unit :=
  if 0 ≤ i ∧ i < limit then .ok () else .error (.model (.exprReference f.name site (.int i)))

def checkTarget (f : Function) (site : Site) : Target → Except Fault Unit
  | .expr i => f.checkRef f.exprs.length site i
  | .other (.float x) =>
    if x.isBelow f.exprs.length then .ok ()
    else .error (.model (.exprReference f.name site (.float x)))
  | .other _ => .error .shape

def checkStmt (f : Function) (site : Site) (s : Stmt) : Except Fault Unit := do
  f.checkRef f.exprs.length site s.value
  match s.target with
  | none => return
  | some t => f.checkTarget site t

/-- Checks the block at a position: its id, its successors and its statements. -/
def checkBlock (f : Function) (position : Nat) (b : Block) : Except Fault Unit := do
  if b.id ≠ position then throw (.model (.blockId f.name position b.id))
  b.successors.forM fun s =>
    if 0 ≤ s ∧ s < f.blocks.length then .ok ()
    else .error (.model (.danglingSuccessor f.name b.id s))
  b.stmts.forM (f.checkStmt (.block b.id))

/-- Checks the expression at a position: its id, and that its children come before it. -/
def checkExpr (f : Function) (position : Nat) (e : Expr) : Except Fault Unit := do
  if e.id ≠ position then throw (.model (.exprId f.name position e.id))
  e.children.forM (f.checkRef e.id (.expr e.id))

/-- Accepts a function if ids are positions, references are in range, and the children of an
expression come before it, so that there are no cycles. -/
def validate (f : Function) : Except Fault Unit := do
  if !f.blocks.isEmpty ∧ ¬(0 ≤ f.entry ∧ f.entry < f.blocks.length) then
    throw (.model (.entryMissing f.name f.entry))
  f.blocks.zipIdx.forM fun (b, i) => f.checkBlock i b
  f.exprs.zipIdx.forM fun (e, i) => f.checkExpr i e

end Function
end AccountLint
