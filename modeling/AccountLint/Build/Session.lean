import AccountLint.Build.FunctionDraft

/-! The calls by which a function is drafted, as data. -/
namespace AccountLint

inductive DraftCall where
  | param (name : Name) (type : Option TypeRef)
  | declare (name : Name) (type : Option TypeRef)
  | moveTo (line column : Int)
  | unmodeled
  | var (name : String)
  | field (base : Int) (name : Name) (type : Option TypeRef)
  | deref (base : Int)
  | index (base : Int) (position : Option Int)
  | ref (base : Int) (mutable : Bool)
  | call (path : Name) (args : List Int) (type : Option TypeRef)
  | method (receiver : Int) (name : Name) (args : List Int) (type : Option TypeRef)
  | compare (operator : Name) (left right : Int)
  | literal (value : Value) (type : Option TypeRef)
  | construct (type : Option TypeRef) (fields : List (String × Int))
  | arrayLiteral (elements : List Int) (type : Option TypeRef)
  | assign (target : Value) (value : Int)
  | letVar (name : Name) (value : Int) (type : Option TypeRef)
  | eval (value : Int)
  | block
  | current
  | goto (id : Int)
  | edge (source target : Int)
  | edges (pairs : List (Int × Int))
deriving DecidableEq, Inhabited

namespace FunctionDraft

/-- The draft after a call, with the id that the call answers, if it answers one. A call that fails
leaves the draft as it was. -/
def settle (d : FunctionDraft) :
    Except Fault (Int × FunctionDraft) → FunctionDraft × Except Fault (Option Int)
  | .ok (i, d) => (d, .ok (some i))
  | .error e => (d, .error e)

def settleUnit (d : FunctionDraft) :
    Except Fault FunctionDraft → FunctionDraft × Except Fault (Option Int)
  | .ok d => (d, .ok none)
  | .error e => (d, .error e)

/-- Performs a call. Names of fields that clash with the parameters of a constructor are refused. -/
def perform (d : FunctionDraft) (table : TypeTable) :
    DraftCall → FunctionDraft × Except Fault (Option Int)
  | .param name type => (d.param name type, .ok none)
  | .declare name type => (d.declare name type, .ok none)
  | .moveTo line column => (d.moveTo line column, .ok none)
  | .unmodeled => ({ d with modeled := false }, .ok none)
  | .var name => d.settle (.ok (d.var name))
  | .field base name type => d.settle (d.field table base name type)
  | .deref base => d.settle (d.deref base)
  | .index base position => d.settle (d.index table base position)
  | .ref base mutable => d.settle (d.ref base mutable)
  | .call path args type => d.settle (.ok (d.call path args type))
  | .method receiver name args type => d.settle (d.method table receiver name args type)
  | .compare operator left right => d.settle (.ok (d.compare operator left right))
  | .literal value type => d.settle (.ok (d.literal value type))
  | .construct type fields =>
    if fields.any fun f => f.1 == "self" || f.1 == "type_id" then (d, .error .shape)
    else d.settle (.ok (d.construct type fields))
  | .arrayLiteral elements type => d.settle (.ok (d.arrayLiteral elements type))
  | .assign target value => (d.assign target value, .ok none)
  | .letVar name value type => d.settleUnit (d.letVar name value type)
  | .eval value => (d.eval value, .ok none)
  | .block => d.settle (.ok d.block)
  | .current => (d, .ok (some d.current))
  | .goto id => d.settleUnit (d.goto id)
  | .edge source target => d.settleUnit (d.edge source target)
  | .edges pairs =>
    let (d, r) := d.edges pairs
    (d, r.map fun _ => none)

end FunctionDraft

/-- A program under construction: its types, its finished functions and the draft in hand. -/
structure BuildSession where
  table : TypeTable := {}
  functions : List Function := []
  draft : Option FunctionDraft := none
deriving Inhabited

namespace BuildSession

def program (s : BuildSession) : Program := ⟨s.table.types, s.functions⟩

/-- Starts a draft, in place of the one in hand. -/
def start (s : BuildSession) (name file : String) (line : Int) : BuildSession :=
  { s with draft := some (.new name ⟨file, line, 0⟩) }

def perform (s : BuildSession) (c : DraftCall) : BuildSession × Except Fault (Option Int) :=
  match s.draft with
  | none => (s, .error .notText)
  | some d =>
    let (d, r) := d.perform s.table c
    ({ s with draft := some d }, r)

/-- Adds the function that has been drafted, if it is well formed. The draft stays in hand. -/
def finish (s : BuildSession) : BuildSession × Except Fault Unit :=
  match s.draft with
  | none => (s, .error .notText)
  | some d =>
    match d.build with
    | .ok f => ({ s with functions := s.functions ++ [f] }, .ok ())
    | .error e => (s, .error e)

end BuildSession
end AccountLint
