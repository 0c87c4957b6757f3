import AccountLint.Build.TypeTable

/-! Functions under construction. Expressions and blocks are numbered as they come, and types of
projections are filled in where the table tells them. -/
namespace AccountLint

/-- A function under construction: its blocks as statements and successors, the block that
statements go to, and the place that new expressions and statements carry. -/
structure FunctionDraft where
  name : String
  location : Location := {}
  modeled : Bool := true
  params : List Param := []
  locals : List LocalVar := []
  exprs : List Expr := []
  stmts : List (List Stmt) := [[]]
  successors : List (List Int) := [[]]
  current : Int := 0
  here : Location := {}
deriving Inhabited

namespace FunctionDraft

def new (name : String) (location : Location) : FunctionDraft :=
  { name := name, location := location, here := location }

def param (d : FunctionDraft) (name : Name) (type : Option TypeRef) : FunctionDraft :=
  { d with params := d.params ++ [⟨name, type, d.here⟩] }

def declared? (d : FunctionDraft) (name : Name) : Option (Option TypeRef) :=
  match d.params.find? fun p => p.name.same name with
  | some p => some p.type
  | none => (d.locals.find? fun v => v.name.same name).map (·.type)

/-- Declares a variable unless its name is taken. -/
def declare (d : FunctionDraft) (name : Name) (type : Option TypeRef) : FunctionDraft :=
  if (d.declared? name).isSome then d else { d with locals := d.locals ++ [⟨name, type⟩] }

def moveTo (d : FunctionDraft) (line column : Int) : FunctionDraft :=
  { d with here := ⟨d.location.file, line, column⟩ }

/-- Adds an expression, which gets the next id and the place of the draft. -/
def push (d : FunctionDraft) (e : Expr) : Int × FunctionDraft :=
  let id : Int := d.exprs.length
  (id, { d with exprs := d.exprs ++ [{ e with id := id, location := d.here }] })

/-- The type of an expression, where a negative id counts from the end. -/
def typeOf (d : FunctionDraft) (i : Int) : Except Fault (Option TypeRef) :=
  match fromEnd? d.exprs i with
  | some e => .ok e.type
  | none => .error .bounds

def var (d : FunctionDraft) (name : String) : Int × FunctionDraft :=
  d.push { id := 0, kind := .localVar, localName := some name,
           type := (d.declared? (.text name)).join }

def field (d : FunctionDraft) (table : TypeTable) (base : Int) (name : Name)
    (type : Option TypeRef) : Except Fault (Int × FunctionDraft) := do
  let type ← match type with
    | some t => pure (some t)
    | none => table.fieldType (← d.typeOf base) name
  return d.push { id := 0, kind := .field, receiver := some base, name := some name, type := type }

def deref (d : FunctionDraft) (base : Int) : Except Fault (Int × FunctionDraft) := do
  let type ← d.typeOf base
  return d.push { id := 0, kind := .deref, receiver := some base, type := type }

def index (d : FunctionDraft) (table : TypeTable) (base : Int) (position : Option Int) :
    Except Fault (Int × FunctionDraft) := do
  let type ← table.elementType (← d.typeOf base)
  return d.push { id := 0, kind := .index, receiver := some base, operands := position.toList,
                  type := type }

def ref (d : FunctionDraft) (base : Int) (mutable : Bool) :
    Except Fault (Int × FunctionDraft) := do
  let type ← d.typeOf base
  return d.push { id := 0, kind := .ref, receiver := some base, mutable := mutable, type := type }

def call (d : FunctionDraft) (path : Name) (args : List Int) (type : Option TypeRef) :
    Int × FunctionDraft :=
  d.push { id := 0, kind := .call, name := some path, operands := args, type := type }

def method (d : FunctionDraft) (table : TypeTable) (receiver : Int) (name : Name)
    (args : List Int) (type : Option TypeRef) : Except Fault (Int × FunctionDraft) := do
  let type ← match type with
    | some t => pure (some t)
    | none => table.methodType (← d.typeOf receiver) name
  return d.push { id := 0, kind := .call, name := some name, receiver := some receiver,
                  operands := args, type := type }

def compare (d : FunctionDraft) (operator : Name) (left right : Int) : Int × FunctionDraft :=
  d.push { id := 0, kind := .compare, name := some operator, operands := [left, right] }

def literal (d : FunctionDraft) (value : Value) (type : Option TypeRef) : Int × FunctionDraft :=
  d.push { id := 0, kind := .literal, value := value, type := type }

def construct (d : FunctionDraft) (type : Option TypeRef) (fields : List (String × Int)) :
    Int × FunctionDraft :=
  d.push { id := 0, kind := .construct, type := type, fieldNames := fields.map (·.1),
           operands := fields.map (·.2) }

/-- An array: a constructor whose fields are the positions. -/
def arrayLiteral (d : FunctionDraft) (elements : List Int) (type : Option TypeRef) :
    Int × FunctionDraft :=
  d.push { id := 0, kind := .construct, type := type,
           fieldNames := (List.range elements.length).map fun i => toString i,
           operands := elements }

def append (d : FunctionDraft) (s : Stmt) : FunctionDraft :=
  { d with stmts := d.stmts.modify d.current.toNat (· ++ [{ s with location := d.here }]) }

/-- Assigns to a target: a text is a variable, an integer the id of an expression, and anything else
stays as it is. -/
def assign (d : FunctionDraft) (target : Value) (value : Int) : FunctionDraft :=
  match target with
  | .text name =>
    let (i, d) := d.var name
    d.append { kind := .assign, value := value, target := some (.expr i) }
  | .int i => d.append { kind := .assign, value := value, target := some (.expr i) }
  | v => d.append { kind := .assign, value := value, target := some (.other v) }

/-- Declares a name, with the type of the value unless one is given, and assigns to it. -/
def letVar (d : FunctionDraft) (name : Name) (value : Int) (type : Option TypeRef) :
    Except Fault FunctionDraft := do
  let type ← match type with
    | some t => pure (some t)
    | none => d.typeOf value
  return (d.declare name type).assign name value

def eval (d : FunctionDraft) (value : Int) : FunctionDraft :=
  d.append { kind := .eval, value := value }

/-- Opens a new block, which becomes the current one. -/
def block (d : FunctionDraft) : Int × FunctionDraft :=
  let id : Int := d.stmts.length
  (id, { d with stmts := d.stmts ++ [[]], successors := d.successors ++ [[]], current := id })

def goto (d : FunctionDraft) (id : Int) : Except Fault FunctionDraft :=
  if 0 ≤ id ∧ id < d.stmts.length then .ok { d with current := id }
  else .error (.model (.noBlock d.name id))

/-- The position that an id stands for in a list of some length, a negative one from the end. -/
def resolve? (length : Nat) (i : Int) : Option Nat :=
  if 0 ≤ i then (if i.toNat < length then some i.toNat else none)
  else if 0 ≤ i + length then some (i + length).toNat else none

/-- Adds an edge unless it is there. -/
def edge (d : FunctionDraft) (source target : Int) : Except Fault FunctionDraft :=
  match resolve? d.successors.length source with
  | none => .error .bounds
  | some i =>
    .ok { d with successors := d.successors.modify i fun out => addNew out target }

/-- Adds edges up to the first that cannot be added. -/
def edges (d : FunctionDraft) : List (Int × Int) → FunctionDraft × Except Fault Unit
  | [] => (d, .ok ())
  | (a, b) :: rest =>
    match d.edge a b with
    | .error e => (d, .error e)
    | .ok d => d.edges rest

def function (d : FunctionDraft) : Function :=
  { name := d.name, location := d.location, params := d.params, locals := d.locals,
    exprs := d.exprs, modeled := d.modeled,
    blocks := (d.stmts.zip d.successors).zipIdx.map fun ((stmts, out), i) => ⟨i, stmts, out⟩ }

/-- The function that has been drafted, if it is well formed. -/
def build (d : FunctionDraft) : Except Fault Function := do
  d.function.validate
  return d.function

end FunctionDraft
end AccountLint
