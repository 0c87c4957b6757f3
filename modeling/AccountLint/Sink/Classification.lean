import AccountLint.Sink.Basic
import AccountLint.Sink.Bump

/-! Finding the sinks of a rule in a function. -/
namespace AccountLint

def describe (words : String) : Option AccessPath → Except Fault String
  | none => .ok words
  | some p => p.display

namespace SinkPattern

def calls (p : SinkPattern) (methods : Bool) (e : Expr) : Except Fault Bool :=
  if e.kind != .call || (e.isMethodCall && !methods) then .ok false
  else matchesAny p.targets e.name

/-- Whether an expression is a call that a pattern is about, perhaps by the name of a type in place
of that of a trait. -/
def callsAssociated (p : SinkPattern) (e : Expr) : Except Fault Bool :=
  if e.kind != .call then .ok false else anyM (fun t => callMatches t e.name) p.targets

def aims (p : SinkPattern) (f : Facts) (type : Option TypeRef) : Except Fault Bool := do
  match ← f.program.type? type with
  | none => return false
  | some t => matchesAny p.targets (some t.path)

def callSink (p : SinkPattern) (c : Category) (l : Int × Expr) : Except Fault (Option Sink) := do
  let (block, e) := l
  if !(← p.calls true e) then return none
  return some { category := c, block := block, location := e.location,
                details := [("callee", (e.name.getD .null).display)] }

def operandSink (f : Facts) (c : Category) (block : Int) (e : Expr) (operand : Int) :
    Except Fault Sink := do
  let path ← f.pathOf (some operand)
  let text ← describe "the program id" path
  let paths ← AccessPath.setOf path.toList
  return { category := c, block := block, paths := paths, location := e.location,
           expr := some operand, details := [("path", text)] }

/-- The argument of a call at a position is a sink; a negative position counts from the end. -/
def callArgSink (p : SinkPattern) (f : Facts) (c : Category) (l : Int × Expr) :
    Except Fault (Option Sink) := do
  let (block, e) := l
  if !(← p.calls false e) then return none
  if p.argument ≥ e.operands.length then return none
  match fromEnd? e.operands p.argument with
  | none => throw .bounds
  | some operand => return some (← operandSink f c block e operand)

def constructSink (p : SinkPattern) (f : Facts) (c : Category) (l : Int × Expr) :
    Except Fault (Option Sink) := do
  let (block, e) := l
  if e.kind != .construct then return none
  if !(← p.aims f e.type) then return none
  match e.fieldNames.idxOf? p.field with
  | none => return none
  | some i =>
    match e.operands[i]? with
    | none => throw .bounds
    | some operand => return some (← operandSink f c block e operand)

/-- Whether an expression converts a value of a type that the pattern is about, and so is no use of
its own. -/
def isConversion (p : SinkPattern) (f : Facts) (e : Expr) : Except Fault Bool := do
  if !e.isMethodCall then return false
  if !(← e.nameIn safeConversions) then return false
  match ← f.typeOf e.receiver with
  | none => return false
  | some t => matchesAny p.targets (some t.path)

/-- A use of a value of a type is a sink, unless it only names, borrows or converts it. -/
def useSink (p : SinkPattern) (f : Facts) (c : Category) (l : Int × Expr) :
    Except Fault (Option Sink) := do
  let (block, e) := l
  if e.kind == .localVar || e.kind == .ref || e.kind == .deref then return none
  if !(← p.aims f e.type) then return none
  if ← p.isConversion f e then return none
  let path ← f.pathOf (some e.id)
  let paths ← AccessPath.setOf path.toList
  return some { category := c, block := block, paths := paths, location := e.location,
                expr := some e.id, details := [("path", ← describe "account" path)] }

/-- Leaves out the sinks at a place that an earlier one was at. -/
def firstUses (seen : List AccessPath) :
    List (Except Fault (Option Sink)) → List (Except Fault (Option Sink))
  | [] => []
  | .ok (some s) :: rest =>
    if s.paths.any fun p => seen.any (·.same p) then firstUses seen rest
    else .ok (some s) :: firstUses (s.paths ++ seen) rest
  | other :: rest => other :: firstUses seen rest

/-- An assignment of zero to a field is a sink of what has the field. -/
def zeroSink (p : SinkPattern) (f : Facts) (c : Category) (root : Int × Stmt) :
    Except Fault (Option Sink) := do
  let (block, s) := root
  match s.kind, s.target with
  | .assign, some target =>
    if !(← f.isZero s.value) then return none
    match ← f.targetPath target with
    | none => return none
    | some path =>
      match path.last?, path.parent? with
      | some step, some account =>
        if step != .text p.field then return none
        let paths ← AccessPath.setOf [account]
        return some { category := c, block := block, paths := paths, location := s.location,
                      details := [("path", ← account.display)] }
      | _, _ => return none
  | _, _ => return none

/-- A function with a parameter of a type is a sink, by the first such parameter. -/
def contextSink (p : SinkPattern) (f : Facts) (c : Category) : Except Fault (Option Sink) := do
  let context ← firstM (fun param : Param => do
    return if ← p.aims f param.type then some param else none) f.function.params
  return context.map fun param =>
    { category := c, block := f.function.entry, location := f.function.location,
      details := [("path", param.name.display)] }

/-- A mutable borrow: its block, its place and the argument of its type. -/
structure Borrow where
  block : Int
  expr : Expr
  path : AccessPath
  inner : TypeRef

def borrow? (p : SinkPattern) (f : Facts) (l : Int × Expr) : Except Fault (Option Borrow) := do
  let (block, e) := l
  if e.kind != .ref || !e.mutable then return none
  if !(← p.aims f e.type) then return none
  let inner ← f.program.innerType e.type
  let path ← f.pathOf (some e.id)
  match inner, path with
  | some t, some q => return some ⟨block, e, q, t⟩
  | _, _ => return none

/-- The first borrow of every place with every argument. -/
def firstBorrows (bs : List Borrow) : List Borrow :=
  bs.foldl (fun kept b =>
    if kept.any fun k => k.inner == b.inner && k.path.same b.path then kept else kept ++ [b]) []

/-- Two mutable borrows of different places are a sink if their types have the same argument. -/
def pairSink (c : Category) (pair : Borrow × Borrow) : Except Fault (Option Sink) := do
  let (a, b) := pair
  let first ← a.path.display
  let second ← b.path.display
  let paths ← AccessPath.setOf [a.path, b.path]
  return some
    { category := c, block := a.block, paths := paths, location := a.expr.location,
      secondary := [b.expr.location],
      details := [("line", toString a.expr.location.line),
                  ("other_line", toString b.expr.location.line), ("first", first),
                  ("second", second)] }

def borrowPairs (p : SinkPattern) (f : Facts) : Except Fault (List (Borrow × Borrow)) := do
  let borrows := firstBorrows (← collectM (p.borrow? f) f.located)
  let inners ← TypeRef.sorted (distinct (borrows.map (·.inner)))
  return inners.flatMap fun t => pairs (borrows.filter (·.inner == t))

/-- The name of the type of a call's result, or of what qualifies the call. -/
def resultName (f : Facts) (e : Expr) : Except Fault String := do
  match ← f.program.type? (← f.program.unwrap resultWrappers e.type) with
  | some t => t.name
  | none => return Text.qualifier (e.name.getD .null).display

def typedCallSink (p : SinkPattern) (f : Facts) (c : Category) (l : Int × Expr) :
    Except Fault (Option Sink) := do
  let (block, e) := l
  if e.isMethodCall then return none
  if !(← p.callsAssociated e) then return none
  let name ← resultName f e
  if !p.types.contains name then return none
  return some { category := c, block := block, location := e.location,
                details := [("sysvar", name)] }

/-- A derivation of an address from a bump seed is a sink, unless the seed is constrained. -/
def bumpSink (p : SinkPattern) (f : Facts) (c : Category) (l : Int × Expr) :
    Except Fault (Option Sink) := do
  let (block, e) := l
  if !(← p.calls false e) then return none
  match e.operands with
  | [] => return none
  | seeds :: _ =>
    match ← f.bumpOf seeds with
    | none => return none
    | some bump =>
      let origin ← f.bumpOrigin bump
      if origin == .constrained then return none
      let path ← f.pathOf (some bump)
      let text ← describe "bump" path
      let paths ← AccessPath.setOf path.toList
      return some
        { category := c, block := block, paths := paths, location := e.location,
          message := origin.message, unconditional := origin != .other,
          details := [("path", text)] }

def readsData (f : Facts) (e : Expr) : Except Fault Bool :=
  anyM (fun i => do return (← f.pathOf (some i)).any (·.mentions "data")) e.children

/-- Whether a deserialized type, and the call that yields it, are of the sort that a pattern is
about. -/
def wants (p : SinkPattern) (f : Facts) (t : TypeDecl) (e : Expr) : Except Fault Bool := do
  if !p.trait.isEmpty then
    if !(← t.hasTrait p.trait) then return false
  if p.fromAccountData then readsData f e else return true

def deserializeSink (p : SinkPattern) (f : Facts) (c : Category) (l : Int × Expr) :
    Except Fault (Option Sink) := do
  let (block, e) := l
  if !(← p.callsAssociated e) then return none
  match ← f.program.unwrap resultWrappers e.type with
  | some (.index i) =>
    match ← f.program.type? (some (.index i)) with
    | none => return none
    | some t =>
      if !(← p.wants f t e) then return none
      return some { category := c, block := block, location := e.location, type := some i,
                    details := [("type", ← t.name)] }
  | _ => return none

/-- What a pattern finds in a function, in order; what is behind a fault does not count. -/
def candidates (p : SinkPattern) (f : Facts) (c : Category) : List (Except Fault (Option Sink)) :=
  match p.kind with
  | .call => f.located.map (p.callSink c)
  | .callArg => f.located.map (p.callArgSink f c)
  | .constructField => f.located.map (p.constructSink f c)
  | .typedUse => firstUses [] (f.located.map (p.useSink f c))
  | .zeroAssign => f.function.roots.map (p.zeroSink f c)
  | .contextFunction => [p.contextSink f c]
  | .mutableBorrowPair =>
    match p.borrowPairs f with
    | .error e => [.error e]
    | .ok found => found.map (pairSink c)
  | .typedCall => f.located.map (p.typedCallSink f c)
  | .seedBump => f.located.map (p.bumpSink f c)
  | .deserialize => f.located.map (p.deserializeSink f c)

end SinkPattern

namespace Rule

/-- A candidate, unless there is none or it is exempt. -/
def keep? (r : Rule) (f : Facts) (candidate : Except Fault (Option Sink)) :
    Except Fault (Option Sink) := do
  match ← candidate with
  | none => return none
  | some s =>
    match s.expr with
    | none => return some s
    | some i => if ← r.exemptsExpr f i then return none else return some s

def sinksIn (r : Rule) (f : Facts) : Except Fault (List Sink) := do
  if ← r.exemptsFunction f then return []
  concatM (fun p => collectM (r.keep? f) (p.candidates f r.category)) r.sinks

end Rule
end AccountLint
