import AccountLint.Decimal.Numeral
import AccountLint.Document.Types
import AccountLint.Program.Lookup

/-! Programs as records: the form in which models are handed over. A field that has its default may
be left out, and on the way out it is. -/
namespace AccountLint.Interchange

/-- A field that is there and is not null. -/
def present? (key : String) (v : Value) : Option Value :=
  match v.field? key with
  | some .null | none => none
  | some x => some x

def items (key : String) (v : Value) : List Value :=
  match v.field? key with
  | some (.list xs) => xs
  | _ => []

def textOf (key : String) (v : Value) : String := (v.field? key >>= Value.text?).getD ""

def intOf (key : String) (default : Int) (v : Value) : Int :=
  (v.field? key >>= Value.int?).getD default

/-- A place: file, line and perhaps column. -/
def location : Value → Location
  | .list [.text file, .int line, .int column] => ⟨file, line, column⟩
  | .list [.text file, .int line] => ⟨file, line, 0⟩
  | .list [.text file] => ⟨file, 0, 0⟩
  | _ => {}

/-- The place in the field `loc`. -/
def locationOf (v : Value) : Location := ((v.field? "loc").map location).getD {}

def typeRef : Value → Option TypeRef
  | .int i => some (.index i)
  | .text s => some (.unresolved s)
  | _ => none

def typeOf (v : Value) : Option TypeRef := v.field? "type" >>= typeRef

mutual

/-- A literal: decimals and byte strings are records with one field. -/
def literal : Value → Value
  | .record ["float"] [.text s] =>
    ((Numeral.float? s.toList).map Value.float).getD (.record ["float"] [.text s])
  | .record ["bytes"] [.list bs] => .bytes (bs.map fun b => (b.int?.getD 0).toNat)
  | .list xs => .list (literals xs)
  | v => v

def literals : List Value → List Value
  | [] => []
  | x :: xs => literal x :: literals xs

end

def field (v : Value) : FieldDecl :=
  { name := (v.field? "name").getD .null, type := typeOf v,
    constraints := Value.distinctValues (items "constraints" v),
    distinctFrom := Value.distinctValues (items "distinct" v), location := locationOf v }

def typeKind (v : Value) : TypeKind := (Document.kind? v).getD .hidden

def typeDecl (v : Value) (position : Nat) : TypeDecl :=
  { id := intOf "id" position v, path := (v.field? "path").getD .null,
    kind := ((v.field? "kind").map typeKind).getD .hidden,
    fields := (items "fields" v).map field, variants := intOf "variants" 0 v,
    traits := Value.distinctValues (items "traits" v),
    attributes := Value.distinctValues (items "attrs" v), args := (items "args" v).map typeRef,
    length := present? "len" v >>= Value.int?, location := locationOf v }

def exprKindWords : List (String × ExprKind) :=
  [("local", .localVar), ("field", .field), ("deref", .deref), ("index", .index), ("ref", .ref),
   ("call", .call), ("compare", .compare), ("literal", .literal), ("construct", .construct)]

def expr (v : Value) (position : Nat) : Expr :=
  { id := intOf "id" position v, kind := (exprKindWords.lookup (textOf "kind" v)).getD .literal,
    type := typeOf v, location := locationOf v, localName := v.field? "local" >>= Value.text?,
    name := present? "name" v, operands := (items "ops" v).filterMap Value.int?,
    receiver := present? "recv" v >>= Value.int?,
    value := literal ((v.field? "value").getD .null),
    fieldNames := (items "fields" v).filterMap Value.text?,
    mutable := v.field? "mut" == some (.bool true) }

def stmt (v : Value) : Stmt :=
  { kind := if v.field? "kind" == some (.text "assign") then .assign else .eval,
    value := intOf "value" 0 v, location := locationOf v,
    target := (present? "target" v).map fun t =>
      match t with
      | .int i => .expr i
      | x => .other x }

def block (v : Value) (position : Nat) : Block :=
  ⟨intOf "id" position v, (items "stmts" v).map stmt, (items "succ" v).filterMap Value.int?⟩

def function (v : Value) : Function :=
  { name := textOf "name" v, location := locationOf v,
    params := (items "params" v).map fun p => ⟨(p.field? "name").getD .null, typeOf p, locationOf p⟩,
    locals := (items "locals" v).map fun p => ⟨(p.field? "name").getD .null, typeOf p⟩,
    exprs := (items "exprs" v).zipIdx.map fun (e, i) => expr e i,
    blocks := (items "blocks" v).zipIdx.map fun (b, i) => block b i,
    entry := intOf "entry" 0 v, modeled := v.field? "modeled" != some (.bool false) }

def program (v : Value) : Program :=
  ⟨(items "types" v).zipIdx.map fun (t, i) => typeDecl t i, (items "functions" v).map function⟩

/-- A field, unless it has its default. -/
def omitIf (default : Bool) (key : String) (v : Value) : List (String × Value) :=
  if default then [] else [(key, v)]

def ofLocation (l : Location) : Value := .list [.text l.file, .int l.line, .int l.column]

/-- The field `loc`, unless the place is unknown. -/
def locField (l : Location) : List (String × Value) := omitIf (l == {}) "loc" (ofLocation l)

def ofTypeRef : Option TypeRef → Value
  | none => .null
  | some (.index i) => .int i
  | some (.unresolved s) => .text s

/-- The field `type`, unless the type is unknown. -/
def typeField (t : Option TypeRef) : List (String × Value) := omitIf t.isNone "type" (ofTypeRef t)

mutual

/-- A literal as a value: decimals and byte strings become records with one field. -/
def ofLiteral : Value → Value
  | .float x => .record ["float"] [.text (Binary64.plain.write x)]
  | .bytes bs => .record ["bytes"] [.list (bs.map fun b => .int (Int.ofNat b))]
  | .list xs => .list (ofLiterals xs)
  | v => v

def ofLiterals : List Value → List Value
  | [] => []
  | x :: xs => ofLiteral x :: ofLiterals xs

end

/-- A field with a set in increasing order, unless the set is empty. -/
def setField (key : String) (xs : List Value) : Except Fault (List (String × Value)) := do
  return omitIf xs.isEmpty key (.list (← sortedSet xs))

def ofField (f : FieldDecl) : Except Fault Value := do
  let constraints ← setField "constraints" f.constraints
  let distinctFrom ← setField "distinct" f.distinctFrom
  return .ofFields ([("name", f.name)] ++ typeField f.type ++ constraints ++ distinctFrom ++
    locField f.location)

def kindWord : TypeKind → String
  | .struct => "struct"
  | .enum => "enum"
  | .array => "array"
  | .primitive => "primitive"
  | .hidden => "opaque"

def ofType (t : TypeDecl) : Except Fault Value := do
  let fields ← t.fields.mapM ofField
  let traits ← setField "traits" t.traits
  let attributes ← setField "attrs" t.attributes
  return .ofFields ([("id", .int t.id), ("path", t.path), ("kind", .text (kindWord t.kind))] ++
    omitIf t.fields.isEmpty "fields" (.list fields) ++
    omitIf (t.variants == 0) "variants" (.int t.variants) ++ traits ++ attributes ++
    omitIf t.args.isEmpty "args" (.list (t.args.map ofTypeRef)) ++
    omitIf t.length.isNone "len" ((t.length.map Value.int).getD .null) ++ locField t.location)

def exprKindWord (k : ExprKind) : String :=
  ((exprKindWords.find? fun e => e.2 == k).map (·.1)).getD ""

def ofInts (xs : List Int) : Value := .list (xs.map Value.int)

def ofTexts (xs : List String) : Value := .list (xs.map Value.text)

def ofInt? (i : Option Int) : Value := (i.map Value.int).getD .null

def ofExpr (e : Expr) : Value :=
  .ofFields <| [("id", .int e.id), ("kind", .text (exprKindWord e.kind))] ++ typeField e.type ++
    locField e.location ++
    omitIf e.localName.isNone "local" ((e.localName.map Value.text).getD .null) ++
    omitIf e.name.isNone "name" (e.name.getD .null) ++
    omitIf e.operands.isEmpty "ops" (ofInts e.operands) ++
    omitIf e.receiver.isNone "recv" (ofInt? e.receiver) ++
    omitIf (e.value == .null) "value" (ofLiteral e.value) ++
    omitIf e.fieldNames.isEmpty "fields" (ofTexts e.fieldNames) ++
    omitIf (!e.mutable) "mut" (.bool e.mutable)

def ofTarget : Target → Value
  | .expr i => .int i
  | .other v => v

def ofStmt (s : Stmt) : Value :=
  .ofFields <|
    [("kind", .text (match s.kind with | .assign => "assign" | .eval => "eval")),
     ("value", .int s.value)] ++
    omitIf s.target.isNone "target" ((s.target.map ofTarget).getD .null) ++ locField s.location

def ofBlock (b : Block) : Value :=
  .ofFields [("id", .int b.id), ("stmts", .list (b.stmts.map ofStmt)), ("succ", ofInts b.successors)]

def ofFunction (f : Function) : Value :=
  .ofFields <| [("name", .text f.name)] ++ locField f.location ++
    omitIf f.params.isEmpty "params" (.list (f.params.map fun p =>
      .ofFields <| [("name", p.name)] ++ typeField p.type ++ locField p.location)) ++
    omitIf f.locals.isEmpty "locals" (.list (f.locals.map fun v =>
      .ofFields <| [("name", v.name)] ++ typeField v.type)) ++
    [("exprs", .list (f.exprs.map ofExpr)), ("blocks", .list (f.blocks.map ofBlock))] ++
    omitIf (f.entry == 0) "entry" (.int f.entry) ++ omitIf f.modeled "modeled" (.bool f.modeled)

def ofProgram (p : Program) : Except Fault Value := do
  let types ← p.types.mapM ofType
  return .ofFields [("types", .list types), ("functions", .list (p.functions.map ofFunction))]

end AccountLint.Interchange
