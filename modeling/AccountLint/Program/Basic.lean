import AccountLint.Program.Location
import AccountLint.Value

/-! Models of programs: a table of types, and functions with expressions and blocks that refer to
each other by position. -/
namespace AccountLint

/-- A name as a document spells it: a text as a rule, but numbers and lists occur as well. -/
abbrev Name := Value

/-- A reference to a type: a position in the table, or a name that was never resolved. -/
inductive TypeRef where
  | index (i : Int)
  | unresolved (name : String)
deriving DecidableEq, Inhabited

/-- The kinds of types. Nothing is known of the inside of a hidden type. -/
inductive TypeKind where
  | struct
  | enum
  | array
  | primitive
  | hidden
deriving DecidableEq, Inhabited

/-- A field of a struct, with the constraints of its declaration and the names of the fields that
it must differ from. -/
structure FieldDecl where
  name : Name
  type : Option TypeRef := none
  constraints : List Value := []
  distinctFrom : List Value := []
  location : Location := {}
deriving DecidableEq, Inhabited

structure TypeDecl where
  id : Int
  path : Name
  kind : TypeKind := .hidden
  fields : List FieldDecl := []
  variants : Int := 0
  traits : List Value := []
  attributes : List Value := []
  args : List (Option TypeRef) := []
  length : Option Int := none
  location : Location := {}
deriving DecidableEq, Inhabited

inductive ExprKind where
  | localVar
  | field
  | deref
  | index
  | ref
  | call
  | compare
  | literal
  | construct
deriving DecidableEq, Inhabited

/-- An expression. Which parts are in use depends on the kind: a variable has `localName`; a field
has a receiver and a name; a dereference and a borrow have a receiver; an index has a receiver and
perhaps an operand; a call has a name and operands, and a receiver if it is a method call; a
comparison has its operator as name and two operands; a constructor has a type, field names and
operands. -/
structure Expr where
  id : Int
  kind : ExprKind
  type : Option TypeRef := none
  location : Location := {}
  localName : Option String := none
  name : Option Name := none
  operands : List Int := []
  receiver : Option Int := none
  value : Value := .null
  fieldNames : List String := []
  mutable : Bool := false
deriving DecidableEq, Inhabited

/-- What a statement assigns to: an expression as a rule. A name that is neither a text nor an
integer stays as it is. -/
inductive Target where
  | expr (id : Int)
  | other (name : Value)
deriving DecidableEq, Inhabited

inductive StmtKind where
  | assign
  | eval
deriving DecidableEq, Inhabited

structure Stmt where
  kind : StmtKind
  value : Int
  target : Option Target := none
  location : Location := {}
deriving DecidableEq, Inhabited

structure Block where
  id : Int
  stmts : List Stmt := []
  successors : List Int := []
deriving DecidableEq, Inhabited

structure Param where
  name : Name
  type : Option TypeRef := none
  location : Location := {}
deriving DecidableEq, Inhabited

structure LocalVar where
  name : Name
  type : Option TypeRef := none
deriving DecidableEq, Inhabited

/-- A function. Its body may be left out, and then it is not modeled. -/
structure Function where
  name : String
  location : Location := {}
  params : List Param := []
  locals : List LocalVar := []
  exprs : List Expr := []
  blocks : List Block := []
  entry : Int := 0
  modeled : Bool := true
deriving DecidableEq, Inhabited

structure Program where
  types : List TypeDecl := []
  functions : List Function := []
deriving DecidableEq, Inhabited

/-- The entry at a position; a negative position counts from the end. -/
def fromEnd? {α : Type} (xs : List α) (i : Int) : Option α :=
  if 0 ≤ i then xs[i.toNat]? else if 0 ≤ i + xs.length then xs[(i + xs.length).toNat]? else none

def TypeDecl.fieldNamed? (t : TypeDecl) (name : Name) : Option FieldDecl :=
  t.fields.find? fun f => f.name.same name

def TypeDecl.isStruct (t : TypeDecl) : Bool := t.kind == .struct

def TypeDecl.isEnum (t : TypeDecl) : Bool := t.kind == .enum

/-- A call with a receiver. -/
def Expr.isMethodCall (e : Expr) : Bool := e.kind == .call && e.receiver.isSome

/-- The expressions that an expression is made of, the receiver first. -/
def Expr.children (e : Expr) : List Int := e.receiver.toList ++ e.operands

end AccountLint
