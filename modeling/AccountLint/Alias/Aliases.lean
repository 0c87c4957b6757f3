import AccountLint.Alias.RawPath
import AccountLint.Flow.Order

/-! Aliases in a function: what variables were first assigned. -/
namespace AccountLint

/-- The aliases of a function: the place that a variable stands for, and the expression that it was
first assigned. -/
structure Aliases where
  function : Function
  sources : List (String × AccessPath) := []
  definitions : List (String × Int) := []
deriving Inhabited

namespace Aliases

def source? (a : Aliases) : Value → Option AccessPath
  | .text name => a.sources.lookup name
  | _ => none

def roots (a : Aliases) : List Value := a.sources.map fun s => .text s.1

private theorem mem_roots_of_source? {a : Aliases} {root : Value} {src : AccessPath}
    (h : a.source? root = some src) : root ∈ a.roots := by
  unfold source? at h
  split at h
  · exact List.mem_map.mpr ⟨_, mem_of_lookup h, rfl⟩
  · cases h

/-- Replaces the root by what it stands for, again and again, but never the same root twice. -/
def expand (a : Aliases) (seen : List Value) (p : AccessPath) : AccessPath :=
  if _hs : seen.contains p.root = true then p
  else
    match _h : a.source? p.root with
    | none => p
    | some src => expand a (p.root :: seen) (src.extend p.projections)
termination_by unseen a.roots seen
decreasing_by exact unseen_cons_lt (mem_roots_of_source? _h) (by simpa using _hs)

/-- The place that a path stands for, with aliases followed and dereferences dropped. -/
def canonical (a : Aliases) (p : AccessPath) : AccessPath := (a.expand [] p).withoutDerefs

def places (a : Aliases) : List (String × AccessPath) :=
  a.sources.map fun s => (s.1, a.canonical (.ofLocal s.1))

def pathOf (a : Aliases) (i : Int) : Except Fault (Option AccessPath) := do
  return (← a.function.rawPath i).map a.canonical

def sameStorage (a : Aliases) (i j : Int) : Except Fault Bool := do
  let p ← a.pathOf i
  let q ← a.pathOf j
  match p, q with
  | some p, some q => return p.same q
  | _, _ => return false

def definition? (a : Aliases) (name : String) : Option Int := a.definitions.lookup name

/-- The expression that an expression was derived from: through borrows, dereferences and
conversions, and from a variable to its definition. -/
def derivedFrom (a : Aliases) (e : Expr) : Except Fault (Option Int) :=
  match e.kind with
  | .ref | .deref => .ok e.receiver
  | .call => do return if ← e.nameIn safeConversions then e.receiver else none
  | .localVar => .ok (e.localName.bind a.definition?)
  | _ => .ok none

def originsFrom (a : Aliases) : Nat → List Int → Option Int → List Int × Option Fault
  | 0, _, _ | _, _, none => ([], none)
  | length + 1, seen, some i =>
    if seen.contains i then ([], none)
    else
      match a.function.expr i >>= a.derivedFrom with
      | .error f => ([i], some f)
      | .ok next =>
        let (rest, fault) := originsFrom a length (i :: seen) next
        (i :: rest, fault)

/-- The expressions that an expression was derived from, itself first and none twice; a fault ends
them. There are at most as many as there are receivers and definitions. -/
def origins (a : Aliases) (i : Int) : List Int × Option Fault :=
  a.originsFrom (a.function.exprs.length + a.definitions.length + 2) [] (some i)

def originList (a : Aliases) (i : Int) : Except Fault (List Int) :=
  match a.origins i with
  | (is, none) => .ok is
  | (_, some f) => .error f

/-- Takes an assignment into account: only the first to a variable counts, and for the place that it
stands for only the first from another place. -/
def assign (a : Aliases) (name : String) (value : Int) : Except Fault Aliases := do
  let a := if (a.definitions.lookup name).isSome then a
    else { a with definitions := a.definitions ++ [(name, value)] }
  match ← a.function.rawPath value with
  | none => return a
  | some src =>
    if (a.sources.lookup name).isSome || src.root == .text name then return a
    else return { a with sources := a.sources ++ [(name, src)] }

def stmt (a : Aliases) (s : Stmt) : Except Fault Aliases :=
  match s.kind, s.target with
  | .assign, some t => do
    let target ← a.function.targetExpr t
    match target.kind, target.localName with
    | .localVar, some name => if name.isEmpty then return a else a.assign name s.value
    | _, _ => return a
  | _, _ => .ok a

def block (a : Aliases) (b : Int) : Except Fault Aliases := do
  (← a.function.block b).stmts.foldlM stmt a

/-- The aliases of a function, found in one pass over its blocks. -/
def of (f : Function) : Except Fault Aliases := do
  (← f.graph.visitOrder).foldlM block ⟨f, [], []⟩

end Aliases
end AccountLint
