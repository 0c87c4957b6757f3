import AccountLint.Alias.Aliases
import AccountLint.Flow.Dominance
import AccountLint.Program.Behind

/-! What is known of a function before any rule looks at it: its aliases, and the blocks that its
expressions are evaluated in. -/
namespace AccountLint

/-- The facts of a function. An expression is located in the first block with a statement that it
occurs in; the located expressions are in increasing order of their ids. -/
structure Facts where
  program : Program
  function : Function
  aliases : Aliases
  located : List (Int × Expr)
deriving Inhabited

namespace Facts

/-- The expressions of a statement: those of its target, then those of its value. -/
def stmtExprs (f : Function) (s : Stmt) : Except Fault (List Expr) := do
  let target ←
    match s.target with
    | none => pure []
    | some t => f.walkTarget t
  return target ++ (← f.walk s.value)

/-- Locates the expressions of a statement that are not located yet. -/
def locate (f : Function) (found : List (Int × Int)) (root : Int × Stmt) :
    Except Fault (List (Int × Int)) := do
  return (← stmtExprs f root.2).foldl (fun found e =>
    if (found.lookup e.id).isSome then found else found ++ [(e.id, root.1)]) found

/-- The expressions that some statement evaluates, by id, and their blocks. -/
def exprBlocks (f : Function) : Except Fault (List (Int × Int)) := do
  let found ← f.roots.foldlM (locate f) []
  return sortBy (fun a b => a.1 ≤ b.1) found

/-- The facts of a function, which has to be well formed. -/
def build (program : Program) (f : Function) : Except Fault Facts := do
  f.validate
  let blocks ← exprBlocks f
  let located ← blocks.mapM fun (i, b) => do return (b, ← f.expr i)
  let aliases ← Aliases.of f
  return ⟨program, f, aliases, located⟩

def loopBlocks (f : Facts) : List Int := f.function.graph.loopBlocks

def typeOf (f : Facts) : Option Int → Except Fault (Option TypeDecl)
  | none => .ok none
  | some i => do f.program.type? (← f.function.expr i).type

def pathOf (f : Facts) : Option Int → Except Fault (Option AccessPath)
  | none => .ok none
  | some i => f.aliases.pathOf i

def targetPath (f : Facts) : Target → Except Fault (Option AccessPath)
  | .expr i => f.aliases.pathOf i
  | .other _ => .error .shape

/-- Whether an expression is the literal zero, as a number or spelled out. -/
def isZero (f : Facts) (i : Int) : Except Fault Bool := do
  let e ← f.function.expr i
  return e.kind == .literal && (e.value == .int 0 || e.value == .text "0")

end Facts
end AccountLint
