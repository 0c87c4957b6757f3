import AccountLint.Program.Lookup
import AccountLint.ValueSet

/-! Access paths: a variable and the projections that lead from it to a place. -/
namespace AccountLint

/-- A place: a root and the projections from it. -/
structure AccessPath where
  root : Value
  projections : List Value := []
deriving DecidableEq, Inhabited

namespace AccessPath

def derefStep : Value := .text "*"

def elementStep : Value := .text "[]"

def ofLocal (name : String) : AccessPath := ⟨.text name, []⟩

def extend (p : AccessPath) (steps : List Value) : AccessPath :=
  { p with projections := p.projections ++ steps }

/-- The place without dereferences, which are implied. -/
def withoutDerefs (p : AccessPath) : AccessPath :=
  { p with projections := p.projections.filter (· != derefStep) }

def parent? (p : AccessPath) : Option AccessPath :=
  if p.projections.isEmpty then none else some { p with projections := p.projections.dropLast }

def last? (p : AccessPath) : Option Value := p.projections.getLast?

/-- The path with its whole numbers as integers, so that equal paths look alike. -/
def key (p : AccessPath) : AccessPath := ⟨p.root.key, Value.keyList p.projections⟩

/-- Whether two paths are equal, where names that are numbers count by their value. -/
def same (p q : AccessPath) : Bool := p.key == q.key

/-- Whether a place is at or below another. -/
def startsWith (p prior : AccessPath) : Bool :=
  p.key.root == prior.key.root && prior.key.projections.isPrefixOf p.key.projections

def mentions (p : AccessPath) (step : String) : Bool := p.projections.contains (.text step)

/-- Whether a path may be a member of a set: no part of it is a list. -/
def isKey (p : AccessPath) : Bool := p.root.isKey && p.projections.all Value.isKey

/-- The text of a path, all parts of which have to be texts. -/
def display (p : AccessPath) : Except Fault String :=
  match (p.root :: p.projections).mapM Value.text? with
  | some parts => .ok (".".intercalate parts)
  | none => .error .shape

/-- The projection for a name: a name that is missing or empty projects by the empty text. -/
def stepOf (name : Option Name) : Value :=
  match name with
  | some n => if n.isTruthy then n else .text ""
  | none => .text ""

/-- The order of lists of names by the first names that differ, a shorter beginning first. -/
def partsLt? : List Value → List Value → Option Bool
  | [], [] => some false
  | [], _ :: _ => some true
  | _ :: _, [] => some false
  | x :: xs, y :: ys => if x.same y then partsLt? xs ys else x.lt? y

/-- The order of paths, where their names can be compared. -/
def lt? (p q : AccessPath) : Option Bool :=
  partsLt? (p.root :: p.projections) (q.root :: q.projections)

/-- The set of some paths, none of which may have a list in it. -/
def setOf (ps : List AccessPath) : Except Fault (List AccessPath) :=
  if ps.all isKey then .ok (distinctBy same ps) else .error .shape

/-- A set of paths in increasing order, if all of them can be compared. -/
def sorted (ps : List AccessPath) : Except Fault (List AccessPath) :=
  if ps.all fun p => ps.all fun q => (p.lt? q).isSome then
    .ok (sortBy (fun p q => q.lt? p != some true) ps)
  else .error .shape

end AccessPath
end AccountLint
