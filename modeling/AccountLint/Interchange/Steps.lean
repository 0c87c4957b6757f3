import AccountLint.Build.Session
import AccountLint.Interchange.Program

/-! Steps of a construction as lists: a word and its arguments. -/
namespace AccountLint.Interchange

/-- An integer, or zero. -/
def toInt (v : Value) : Int := v.int?.getD 0

/-- The argument at a position; one that is missing is null. -/
def arg (args : List Value) (i : Nat) : Value := args[i]?.getD .null

def intArg (args : List Value) (i : Nat) : Int := toInt (arg args i)

def textArg (args : List Value) (i : Nat) : String := (arg args i).text?.getD ""

def typeArg (args : List Value) (i : Nat) : Option TypeRef := typeRef (arg args i)

/-- The options behind the last plain argument, and the arguments before them. -/
def splitOptions (args : List Value) : List Value × Option Value :=
  match args.getLast? with
  | some (.record keys values) => (args.dropLast, some (.record keys values))
  | _ => (args, none)

/-- The option `type_id`, which is the only one. -/
def typeOption : Option Value → Except Fault (Option TypeRef)
  | none => .ok none
  | some (.record keys values) =>
    if keys.all (· == "type_id") then
      .ok ((Value.record keys values).field? "type_id" >>= typeRef)
    else .error .shape
  | some _ => .error .shape

/-- A field of a type: a record, or a list of its name, its type and perhaps its constraints and the
fields it must differ from. -/
def fieldSpec (asList : Bool) (v : Value) : Except Fault FieldDecl :=
  match v, asList with
  | .record keys values, false => .ok (field (.record keys values))
  | v, _ => do
    match ← v.entries with
    | name :: type :: rest =>
      let constraints ← match rest with
        | c :: _ => do setOf (← c.entries)
        | [] => pure []
      let distinctFrom ← match rest with
        | _ :: d :: _ => do setOf (← d.entries)
        | _ => pure []
      return { name := name, type := typeRef type, constraints := constraints,
               distinctFrom := distinctFrom }
    | _ => throw .parts

def typeOptions : List String :=
  ["kind", "fields", "variant_count", "traits", "attributes", "generic_args", "length", "location"]

def setOption (v : Value) (key : String) : Except Fault (List Value) :=
  match v.field? key with
  | none => .ok []
  | some x => do setOf (← x.entries)

def fieldsOption (v : Value) : Except Fault (List FieldDecl) :=
  match v.field? "fields" with
  | none => .ok []
  | some x => do (← x.entries).mapM (fieldSpec false)

/-- A type with options, none of which may be one that is given otherwise. -/
def withOptions (t : TypeDecl) (given : List String)
    (readFields : Value → Except Fault (List FieldDecl)) (options : Option Value) :
    Except Fault TypeDecl := do
  let v := options.getD (.ofFields [])
  let keys := match v with
    | .record keys _ => keys
    | _ => []
  if keys.any fun k => given.contains k || !typeOptions.contains k then throw .shape
  let fields ← readFields v
  let traits ← setOption v "traits"
  let attributes ← setOption v "attributes"
  let args ← match v.field? "generic_args" with
    | none => pure t.args
    | some x => pure ((← x.entries).map typeRef)
  return { t with
    kind := ((v.field? "kind").map typeKind).getD t.kind
    fields := fields
    variants := intOf "variant_count" t.variants v
    traits := traits
    attributes := attributes
    args := args
    length := present? "length" v >>= Value.int?
    location := ((v.field? "location").map location).getD {} }

def addType (s : BuildSession) (t : TypeDecl) (given : List String)
    (readFields : Value → Except Fault (List FieldDecl)) (options : Option Value) :
    BuildSession × Except Fault Value :=
  match withOptions t given readFields options with
  | .error e => (s, .error e)
  | .ok t =>
    let (table, r) := s.table.add t
    ({ s with table := table }, r.map Value.int)

def draftCall (word : String) (args : List Value) : Except Fault (Option DraftCall) := do
  let (plain, options) := splitOptions args
  let ints (xs : List Value) : List Int := xs.map toInt
  match word with
  | "param" => return some (.param (arg args 0) (typeArg args 1))
  | "local" => return some (.declare (arg args 0) (typeArg args 1))
  | "at" => return some (.moveTo (intArg args 0) (intArg args 1))
  | "unmodeled" => return some .unmodeled
  | "var" => return some (.var (textArg args 0))
  | "field" => return some (.field (intArg args 0) (arg args 1) (typeArg args 2))
  | "deref" => return some (.deref (intArg args 0))
  | "index" => return some (.index (intArg args 0) (arg args 1).int?)
  | "ref" => return some (.ref (intArg args 0) (arg args 1).isTruthy)
  | "call" => return some (.call (arg plain 0) (ints (plain.drop 1)) (← typeOption options))
  | "method" =>
    return some (.method (intArg plain 0) (arg plain 1) (ints (plain.drop 2)) (← typeOption options))
  | "compare" => return some (.compare (arg args 0) (intArg args 1) (intArg args 2))
  | "literal" => return some (.literal (literal (arg args 0)) (typeArg args 1))
  | "construct" =>
    match arg args 1 with
    | .record keys values => return some (.construct (typeArg args 0) (keys.zip (ints values)))
    | _ => return some (.construct (typeArg args 0) [])
  | "array_literal" => return some (.arrayLiteral (ints plain) (← typeOption options))
  | "assign" => return some (.assign (arg args 0) (intArg args 1))
  | "let" => return some (.letVar (arg args 0) (intArg args 1) (typeArg args 2))
  | "eval" => return some (.eval (intArg args 0))
  | "block" => return some .block
  | "current" => return some .current
  | "goto" => return some (.goto (intArg args 0))
  | "edge" => return some (.edge (intArg args 0) (intArg args 1))
  | "edges" =>
    return some (.edges (args.map fun p =>
      match p with
      | .list [a, b] => (toInt a, toInt b)
      | _ => (0, 0)))
  | _ => return none

def performStep (s : BuildSession) (word : String) (args : List Value) :
    BuildSession × Except Fault Value :=
  match draftCall word args with
  | .error e => (s, .error e)
  | .ok none => (s, .error .notText)
  | .ok (some call) =>
    let (s, r) := s.perform call
    (s, r.map ofInt?)

def step (s : BuildSession) (v : Value) : BuildSession × Except Fault Value :=
  let (word, args) := match v with
    | .list (.text w :: args) => (w, args)
    | _ => ("", [])
  let (plain, options) := splitOptions args
  match word with
  | "struct" =>
    let fields := plain[1]?.getD (.list [])
    addType s { id := 0, path := arg plain 0, kind := .struct } ["kind", "fields"]
      (fun _ => do (← fields.entries).mapM (fieldSpec true)) options
  | "enum" =>
    addType s { id := 0, path := arg plain 0, kind := .enum, variants := intArg plain 1 }
      ["kind", "variant_count"] fieldsOption options
  | "opaque" =>
    addType s { id := 0, path := arg plain 0, args := (plain.drop 1).map typeRef }
      ["kind", "generic_args"] fieldsOption options
  | "add_type" => addType s { id := 0, path := arg plain 0 } [] fieldsOption options
  | "primitive" =>
    let (table, r) := s.table.primitive (arg args 0)
    ({ s with table := table }, r.map ofInt?)
  | "array" =>
    match typeArg args 0 with
    | none => (s, .error .shape)
    | some element =>
      let (table, r) := s.table.array element (arg args 1).int?
      ({ s with table := table }, r.map Value.int)
  | "type" => (s, s.table.get (typeArg args 0) >>= ofType)
  | "type_id" =>
    let path := arg args 0
    (s, if path.isKey then .ok (ofInt? (s.table.position? path)) else .error .shape)
  | "field_type" => (s, (s.table.fieldType (typeArg args 0) (arg args 1)).map ofTypeRef)
  | "method_type" => (s, (s.table.methodType (typeArg args 0) (arg args 1)).map ofTypeRef)
  | "element_type" => (s, (s.table.elementType (typeArg args 0)).map ofTypeRef)
  | "function" => (s.start (textArg args 0) (textArg args 1) (intArg args 2), .ok .null)
  | "type_of" =>
    match s.draft with
    | none => (s, .error .notText)
    | some d => (s, (d.typeOf (intArg args 0)).map ofTypeRef)
  | "add" =>
    let (s, r) := s.finish
    (s, r.map fun _ => .null)
  | "add_model" => ({ s with functions := s.functions ++ [function (arg args 0)] }, .ok .null)
  | _ => performStep s word args

/-- Performs steps one after the other, also behind one that fails. -/
def steps (s : BuildSession) : List Value → BuildSession × List (Except Fault Value)
  | [] => (s, [])
  | v :: vs =>
    let (s, r) := step s v
    let (s, rs) := steps s vs
    (s, r :: rs)

/-- The program that some steps construct, if none of them fails. -/
def construction (vs : List Value) : Except Fault Program := do
  let (s, rs) := steps {} vs
  let _ ← rs.mapM id
  return s.program

end AccountLint.Interchange
