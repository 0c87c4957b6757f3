import AccountLint.Build.FunctionDraft
import AccountLint.Document.Forms

/-! The expressions and statements of a document. -/
namespace AccountLint.Document

/-- What names of types stand for, and what is known of the types. -/
structure Env where
  names : TypeNames
  table : TypeTable

def comparisonOps : List String := ["==", "!=", "<", "<=", ">", ">="]

/-- The type of the result that ends the arguments of a call. -/
def resultType (env : Env) (args : List Value) : Except Fault (Option TypeRef) :=
  match args.getLast? with
  | some (.list (.text "->" :: rest)) =>
    match rest with
    | type :: _ => env.names.resolve type
    | [] => .error .bounds
  | _ => .ok none

def optionalType (env : Env) : List Value → Except Fault (Option TypeRef)
  | [] => .ok none
  | type :: _ => env.names.resolve type

/-- The fields of a constructor with one more; a name that is there keeps its place. -/
def putField (fields : List (Value × Int)) (name : Value) (i : Int) : List (Value × Int) :=
  if fields.any (·.1.same name) then
    fields.map fun f => if f.1.same name then (f.1, i) else f
  else fields ++ [(name, i)]

/-- The names of constructor fields, which have to be texts and may not be reserved ones. -/
def fieldNames (fields : List (Value × Int)) : Except Fault (List (String × Int)) :=
  fields.mapM fun (name, i) =>
    match name with
    | .text s => if s == "self" || s == "type_id" then .error .shape else .ok (s, i)
    | _ => .error .shape

mutual

def expr (env : Env) (d : FunctionDraft) : Value → Except Fault (Int × FunctionDraft)
  | .text s => .ok (d.var s)
  | .int i => .ok (d.literal (.int i) none)
  | .float x => .ok (d.literal (.float x) none)
  | .list (.text head :: args) =>
    let form := Value.list (.text head :: args)
    match args with
    | [] => if head == "array" then .ok (d.arrayLiteral [] none) else .error (.load (.notExpression form))
    | a :: rest =>
      if head == "lit" then do
        return d.literal a (← optionalType env rest)
      else if head == "field" then
        match rest with
        | [name] => do
          let (base, d) ← expr env d a
          d.field env.table base name none
        | [name, type] => do
          let (base, d) ← expr env d a
          d.field env.table base name (← env.names.resolve type)
        | [] | _ :: _ :: _ :: _ => .error (.load (.notExpression form))
      else if head == "deref" then
        match rest with
        | [] => do
          let (base, d) ← expr env d a
          d.deref base
        | _ :: _ => .error (.load (.notExpression form))
      else if head == "ref" || head == "ref-mut" then
        match rest with
        | [] => do
          let (base, d) ← expr env d a
          d.ref base (head == "ref-mut")
        | _ :: _ => .error (.load (.notExpression form))
      else if head == "index" then
        match rest with
        | [] => do
          let (base, d) ← expr env d a
          d.index env.table base none
        | [position] => do
          let (base, d) ← expr env d a
          let (i, d) ← expr env d position
          d.index env.table base (some i)
        | _ :: _ :: _ => .error (.load (.notExpression form))
      else if head == "call" then do
        let type ← resultType env rest
        let (args, d) ← operands env d rest
        return d.call a args type
      else if head == "method" then
        match rest with
        | receiver :: rest => do
          let type ← resultType env rest
          let (base, d) ← expr env d receiver
          let (args, d) ← operands env d rest
          d.method env.table base a args type
        | [] => .error (.load (.notExpression form))
      else if comparisonOps.contains head then
        match rest with
        | [b] => do
          let (left, d) ← expr env d a
          let (right, d) ← expr env d b
          return d.compare (.text head) left right
        | [] | _ :: _ :: _ => .error (.load (.notExpression form))
      else if head == "new" then do
        let (fields, d) ← constructorFields env d [] rest
        let type ← env.names.resolve a
        return d.construct type (← fieldNames fields)
      else if head == "array" then do
        let (first, d) ← expr env d a
        let (others, d) ← exprs env d rest
        return d.arrayLiteral (first :: others) none
      else .error (.load (.notExpression form))
  | form => .error (.load (.notExpression form))

def exprs (env : Env) (d : FunctionDraft) : List Value → Except Fault (List Int × FunctionDraft)
  | [] => .ok ([], d)
  | x :: xs => do
    let (i, d) ← expr env d x
    let (is, d) ← exprs env d xs
    return (i :: is, d)

/-- Adds the arguments of a call to a draft, without the type of the result at their end. -/
def operands (env : Env) (d : FunctionDraft) : List Value → Except Fault (List Int × FunctionDraft)
  | [] => .ok ([], d)
  | x :: xs =>
    if xs.isEmpty && hasHead "->" x then .ok ([], d)
    else do
      let (i, d) ← expr env d x
      let (is, d) ← operands env d xs
      return (i :: is, d)

def constructorFields (env : Env) (d : FunctionDraft) (sofar : List (Value × Int)) :
    List Value → Except Fault (List (Value × Int) × FunctionDraft)
  | [] => .ok (sofar, d)
  | .list [name, x] :: rest => do
    let (i, d) ← expr env d x
    if !name.isKey then throw .shape
    constructorFields env d (putField sofar name i) rest
  | form :: _ => .error (.load (.notConstructorField form))

end

@[simp] theorem expr_text (env : Env) (d : FunctionDraft) (s : String) :
    expr env d (.text s) = .ok (d.var s) := by
  unfold expr
  rfl

@[simp] theorem expr_int (env : Env) (d : FunctionDraft) (i : Int) :
    expr env d (.int i) = .ok (d.literal (.int i) none) := by
  unfold expr
  rfl

@[simp] theorem expr_float (env : Env) (d : FunctionDraft) (x : Binary64) :
    expr env d (.float x) = .ok (d.literal (.float x) none) := by
  unfold expr
  rfl

mutual

def stmt (env : Env) (d : FunctionDraft) : Value → Except Fault FunctionDraft
  | .list (.text head :: args) =>
    let form := Value.list (.text head :: args)
    if head == "at" then do
      let l ← location args.dropLast
      lastStmt env (d.moveTo l.line l.column) args
    else if head == "let" then
      match args with
      | name :: value :: type =>
        if 1 < type.length then .error (.load (.notLet form))
        else do
          let (i, d) ← expr env d value
          d.letVar name i (← optionalType env type)
      | _ => .error (.load (.notLet form))
    else if head == "assign" then
      match args with
      | [target, value] => do
        let (t, d) ← expr env d target
        let (v, d) ← expr env d value
        return d.assign (.int t) v
      | _ => .error (.load (.notStatement form))
    else if head == "eval" then
      match args with
      | [value] => do
        let (v, d) ← expr env d value
        return d.eval v
      | _ => .error (.load (.notStatement form))
    else .error (.load (.notStatement form))
  | form => .error (.load (.notStatement form))

/-- Adds the statement that ends a form with a place; the form's own word counts if there is nothing
else. -/
def lastStmt (env : Env) (d : FunctionDraft) : List Value → Except Fault FunctionDraft
  | [] => .error (.load (.notStatement (.text "at")))
  | [x] => stmt env d x
  | _ :: y :: rest => lastStmt env d (y :: rest)

end

end AccountLint.Document
