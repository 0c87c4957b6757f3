import AccountLint.Alias.AccessPath

/-! The places that expressions denote by themselves. -/
namespace AccountLint

/-- The methods that view the same storage. -/
def safeConversions : List String :=
  ["to_account_info", "clone", "as_ref", "as_mut", "borrow", "borrow_mut", "try_borrow",
   "try_borrow_mut", "deref", "deref_mut", "to_owned", "into", "unwrap", "expect"]

/-- The methods that project, and their projections. -/
def projectionMethods : List (String × String) :=
  [("key", "key"), ("try_borrow_data", "data"), ("try_borrow_mut_data", "data"), ("data", "data"),
   ("try_borrow_lamports", "lamports"), ("try_borrow_mut_lamports", "lamports"),
   ("lamports", "lamports"), ("iter", "[]"), ("iter_mut", "[]"), ("get", "[]"), ("get_mut", "[]"),
   ("next", "[]")]

def Expr.nameIn (e : Expr) (texts : List String) : Except Fault Bool :=
  match e.name with
  | none => .ok false
  | some n => n.isOneOf texts

def Expr.projection? (e : Expr) : Option Value :=
  match e.name with
  | some (.text s) => (projectionMethods.lookup s).map Value.text
  | _ => none

/-- The place of an expression, up to a depth of receivers. -/
def Function.rawPathFrom (f : Function) : Nat → Int → Except Fault (Option AccessPath)
  | 0, _ => .ok none
  | depth + 1, i => do
    let e ← f.expr i
    match e.kind, e.receiver with
    | .localVar, _ =>
      match e.localName with
      | some name => return if name.isEmpty then none else some (.ofLocal name)
      | none => return none
    | _, none => return none
    | .ref, some r => rawPathFrom f depth r
    | .call, some r =>
      if ← e.nameIn safeConversions then rawPathFrom f depth r
      else
        match e.projection? with
        | none => return none
        | some step => return (← rawPathFrom f depth r).map (·.extend [step])
    | .field, some r => return (← rawPathFrom f depth r).map (·.extend [AccessPath.stepOf e.name])
    | .deref, some r => return (← rawPathFrom f depth r).map (·.extend [AccessPath.derefStep])
    | .index, some r => return (← rawPathFrom f depth r).map (·.extend [AccessPath.elementStep])
    | _, some r =>
      let _ ← rawPathFrom f depth r
      return none

/-- The place that an expression denotes, before aliases are followed. Literals, comparisons,
constructors and calls other than conversions and projections denote none. -/
def Function.rawPath (f : Function) (i : Int) : Except Fault (Option AccessPath) :=
  f.rawPathFrom (f.exprs.length + 1) i

end AccountLint
