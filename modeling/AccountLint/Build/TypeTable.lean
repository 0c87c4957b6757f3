import AccountLint.Program.Behind
import AccountLint.ValueSet

/-! Tables of types under construction, and what they tell about the types of expressions. -/
namespace AccountLint

/-- The types so far, and the first position of every path. -/
structure TypeTable where
  types : List TypeDecl := []
  positions : List (Value × Int) := []
deriving Inhabited

namespace TypeTable

/-- The type of account handles. -/
def accountInfoPath : String := "solana_program::account_info::AccountInfo"

/-- The methods whose result has the type of their receiver. -/
def sameTypeMethods : List String :=
  ["clone", "borrow", "borrow_mut", "as_ref", "as_mut", "deref", "deref_mut", "to_owned",
   "try_borrow", "try_borrow_mut"]

/-- The methods that take a value out of a wrapper. -/
def unwrapMethods : List String := ["unwrap", "expect", "unwrap_or_default"]

/-- The wrappers that a value is taken out of. -/
def wrapperNames : List String := ["Result", "Option", "Box", "Rc", "RefCell", "Ref", "RefMut"]

def position? (t : TypeTable) (path : Value) : Option Int :=
  (t.positions.find? fun entry => entry.1.same path).map (·.2)

/-- Adds a type at the next position. Of several types with one path the first is found by it; a
path that is a list cannot be recorded, but the type stays. -/
def add (t : TypeTable) (d : TypeDecl) : TypeTable × Except Fault Int :=
  let id : Int := t.types.length
  let types := t.types ++ [{ d with id := id }]
  if !d.path.isKey then ({ t with types := types }, .error .shape)
  else if (t.position? d.path).isSome then ({ t with types := types }, .ok id)
  else (⟨types, t.positions ++ [(d.path, id)]⟩, .ok id)

/-- A primitive type, which is added only if its path is new. -/
def primitive (t : TypeTable) (path : Value) : TypeTable × Except Fault (Option Int) :=
  if !path.isKey then (t, .error .shape)
  else
    match t.position? path with
    | some i => (t, .ok (some i))
    | none =>
      let (t, r) := t.add { id := 0, path := path, kind := .primitive }
      (t, r.map some)

/-- The type at a position, where a negative one counts from the end. -/
def entry (t : TypeTable) : TypeRef → Except Fault TypeDecl
  | .index i =>
    match fromEnd? t.types i with
    | some d => .ok d
    | none => .error .bounds
  | .unresolved _ => .error .shape

/-- The path of an array of a type, with its length if that is known. -/
def arrayPath (element : Value) (length : Option Int) : String :=
  "[" ++ element.display ++ (length.map fun n => "; " ++ toString n).getD "" ++ "]"

def array (t : TypeTable) (element : TypeRef) (length : Option Int) :
    TypeTable × Except Fault Int :=
  match t.entry element with
  | .error e => (t, .error e)
  | .ok d =>
    t.add { id := 0, path := .text (arrayPath d.path length), kind := .array,
            args := [some element], length := length }

/-- The type at a position, with the message for a position outside the table. -/
def get (t : TypeTable) : Option TypeRef → Except Fault TypeDecl
  | some (.index i) =>
    match fromEnd? t.types i with
    | some d => .ok d
    | none => .error (.model (.typeRange i))
  | _ => .error .shape

def fieldType (t : TypeTable) (type : Option TypeRef) (name : Name) :
    Except Fault (Option TypeRef) := fieldTypeBehind t.types type name

def methodType (t : TypeTable) (receiver : Option TypeRef) (method : Name) :
    Except Fault (Option TypeRef) := do
  if ← method.isOneOf sameTypeMethods then return receiver
  if method.same (.text "to_account_info") then
    return (t.position? (.text accountInfoPath)).map TypeRef.index
  match receiver with
  | none => return none
  | some r =>
    if ← method.isOneOf unwrapMethods then
      let d ← t.entry r
      if wrapperNames.contains (← d.name) then
        match d.args with
        | a :: _ => return a
        | [] => return receiver
      return receiver
    return none

def elementType (t : TypeTable) : Option TypeRef → Except Fault (Option TypeRef)
  | none => .ok none
  | some r => do
    let d ← t.entry r
    if d.kind == .array then return d.args.head?.join
    return none

end TypeTable
end AccountLint
