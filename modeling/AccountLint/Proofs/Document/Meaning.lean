import AccountLint.Document.Load
import AccountLint.Proofs.Facts.Location

/-! What documents say. The form of an expression says what the expression is, what its parts are
and perhaps its type; a statement has a tree for each of its expressions, and a program is read from
the forms of its types and functions. -/
namespace AccountLint

/-- An expression without its id, type and place. -/
def Expr.bare (e : Expr) : Expr := { e with id := 0, type := none, location := {} }

namespace Document

def lastOption? (word : String) (forms : List Value) : Option (List Value) :=
  (forms.reverse.find? (hasHead word)).map arguments

/-- The type that a name stands for: no type for an underscore, and else the position of the
declaration of that name. -/
inductive RefersTo (declarations : List Value) : Value → Option TypeRef → Prop where
  | unknown : RefersTo declarations (.text "_") none
  | declared {i : Nat} {name declared : Value} {rest : List Value} (hname : name ≠ .text "_")
      (hat : declarations[i]? = some (.list (.text "type" :: declared :: rest)))
      (hsame : declared.same name = true) : RefersTo declarations name (some (.index i))

/-- The arguments of a call, without a type at their end. -/
def callArguments (args : List Value) : List Value :=
  if args.getLast?.any (hasHead "->") then args.dropLast else args

/-- The type at the end of the arguments of a call. -/
def resultAnnotation? (args : List Value) : Option Value :=
  match args.getLast? with
  | some (.list (.text "->" :: type :: _)) => some type
  | _ => none

def fieldName? : Value → Option String
  | .list [.text name, _] => some name
  | _ => none

def fieldValue? : Value → Option Value
  | .list [_, value] => some value
  | _ => none

/-- The forms of the expressions that an expression is made of. -/
def parts : Value → List Value
  | .list (.text "field" :: base :: _) => [base]
  | .list (.text "deref" :: base :: _) => [base]
  | .list (.text "ref" :: base :: _) => [base]
  | .list (.text "ref-mut" :: base :: _) => [base]
  | .list (.text "index" :: baseAndPosition) => baseAndPosition
  | .list (.text "call" :: _ :: args) => callArguments args
  | .list (.text "method" :: _ :: receiver :: args) => receiver :: callArguments args
  | .list (.text "new" :: _ :: fields) => fields.filterMap fieldValue?
  | .list (.text "array" :: elements) => elements
  | .list [.text op, left, right] => if op ∈ comparisonOps then [left, right] else []
  | _ => []

def annotation? : Value → Option Value
  | .list (.text "lit" :: _ :: type :: _) => some type
  | .list (.text "field" :: _ :: _ :: type :: _) => some type
  | .list (.text "call" :: _ :: args) => resultAnnotation? args
  | .list (.text "method" :: _ :: _ :: args) => resultAnnotation? args
  | .list (.text "new" :: type :: _) => some type
  | _ => none

/-- What the form of an expression says about it, apart from its type and from which expressions its
parts are. -/
inductive Shows : Value → Expr → Prop where
  | var {s : String} : Shows (.text s) { id := 0, kind := .localVar, localName := some s }
  | int {i : Int} : Shows (.int i) { id := 0, kind := .literal, value := .int i }
  | float {x : Binary64} : Shows (.float x) { id := 0, kind := .literal, value := .float x }
  | literal {value : Value} {type : List Value} :
      Shows (.list (.text "lit" :: value :: type)) { id := 0, kind := .literal, value := value }
  | field {base name : Value} {type : List Value} {r : Int} (htype : type.length ≤ 1) :
      Shows (.list (.text "field" :: base :: name :: type))
        { id := 0, kind := .field, receiver := some r, name := some name }
  | deref {base : Value} {r : Int} :
      Shows (.list [.text "deref", base]) { id := 0, kind := .deref, receiver := some r }
  | ref {base : Value} {r : Int} :
      Shows (.list [.text "ref", base]) { id := 0, kind := .ref, receiver := some r }
  | refMut {base : Value} {r : Int} :
      Shows (.list [.text "ref-mut", base])
        { id := 0, kind := .ref, receiver := some r, mutable := true }
  | index {base : Value} {position : List Value} {r : Int} {ids : List Int}
      (hposition : position.length ≤ 1) :
      Shows (.list (.text "index" :: base :: position))
        { id := 0, kind := .index, receiver := some r, operands := ids }
  | call {path : Value} {args : List Value} {ids : List Int} :
      Shows (.list (.text "call" :: path :: args))
        { id := 0, kind := .call, name := some path, operands := ids }
  | method {name receiver : Value} {args : List Value} {r : Int} {ids : List Int} :
      Shows (.list (.text "method" :: name :: receiver :: args))
        { id := 0, kind := .call, name := some name, receiver := some r, operands := ids }
  | compare {op : String} {left right : Value} {i j : Int} (hop : op ∈ comparisonOps) :
      Shows (.list [.text op, left, right])
        { id := 0, kind := .compare, name := some (.text op), operands := [i, j] }
  | construct {type : Value} {fields : List Value} {names : List String} {ids : List Int}
      (hnames : fields.map fieldName? = names.map some) :
      Shows (.list (.text "new" :: type :: fields))
        { id := 0, kind := .construct, fieldNames := names, operands := ids }
  | array {elements : List Value} {ids : List Int} :
      Shows (.list (.text "array" :: elements))
        { id := 0, kind := .construct, operands := ids
          fieldNames := (List.range ids.length).map fun i => toString i }

/-- The tree of expressions at a position is what a form spells: the expression there is what the
form says, with the type that the form gives it, and below it are the trees of the parts in their
order. -/
inductive Depicts (declarations : List Value) (exprs : List Expr) : Value → Int → Prop where
  | tree {form : Value} {i : Nat} {e : Expr} (hat : exprs[i]? = some e) (hshows : Shows form e.bare)
      (htype : ∀ type, annotation? form = some type →
        ∃ r, RefersTo declarations type r ∧ (r = none ∨ e.type = r))
      (hparts : List.Forall₂ (Depicts declarations exprs) (parts form) e.children) :
      Depicts declarations exprs form i

/-- A statement is what a form spells, perhaps inside forms that say where it is. -/
inductive StmtDepicts (declarations : List Value) (exprs : List Expr) : Value → Stmt → Prop where
  | letVar {name : String} {value : Value} {type : List Value} {s : Stmt} {i : Int}
      (hlength : type.length ≤ 1) (hkind : s.kind = .assign) (htarget : s.target = some (.expr i))
      (hname : Depicts declarations exprs (.text name) i)
      (hvalue : Depicts declarations exprs value s.value) :
      StmtDepicts declarations exprs (.list (.text "let" :: .text name :: value :: type)) s
  | assign {target value : Value} {s : Stmt} {i : Int} (hkind : s.kind = .assign)
      (htarget : s.target = some (.expr i)) (hleft : Depicts declarations exprs target i)
      (hvalue : Depicts declarations exprs value s.value) :
      StmtDepicts declarations exprs (.list [.text "assign", target, value]) s
  | eval {value : Value} {s : Stmt} (hkind : s.kind = .eval) (htarget : s.target = none)
      (hvalue : Depicts declarations exprs value s.value) :
      StmtDepicts declarations exprs (.list [.text "eval", value]) s
  | place {args : List Value} {form : Value} {s : Stmt} (hlast : args.getLast? = some form)
      (hform : StmtDepicts declarations exprs form s) :
      StmtDepicts declarations exprs (.list (.text "at" :: args)) s

def blockForms (function : Value) : List Value := (arguments function).filter (hasHead "block")

def entriesOf (word : String) (forms : List Value) : List Value :=
  (forms.filter (hasHead word)).flatMap arguments

def blockLabel? : Value → Option Value
  | .list (_ :: label :: _) => some label
  | _ => none

def hasLabel (label form : Value) : Bool := (blockLabel? form).any (·.same label)

/-- A label is that of the block form at a position, and not of a later one. -/
def LabelAt (blocks : List Value) (label : Value) (target : Int) : Prop :=
  ∃ i : Nat, target = i ∧ blocks[i]?.any (hasLabel label) = true ∧
    ∀ j, i < j → blocks[j]?.any (hasLabel label) = false

/-- A block is what the block form at its position spells. Its successors are the positions of the
labels, each at its first occurrence. -/
structure BlockDepicts (declarations : List Value) (exprs : List Expr) (blocks : List Value)
    (form : Value × Nat) (b : Block) : Prop where
  id : b.id = form.2
  parts : ∃ label successors stmts targets,
    form.1 = .list (.text "block" :: label :: .list (.text "succ" :: successors) :: stmts) ∧
    List.Forall₂ (LabelAt blocks) successors targets ∧ b.successors = distinct targets ∧
    List.Forall₂ (StmtDepicts declarations exprs) stmts b.stmts

/-- The form inside of forms that say where a statement is. -/
inductive Placed : Value → Value → Prop where
  | here (form : Value) : Placed form form
  | place {args : List Value} {form inner : Value} (hlast : args.getLast? = some form)
      (hinner : Placed form inner) : Placed (.list (.text "at" :: args)) inner

def LetDeclares (declarations : List Value) (form : Value) (v : LocalVar) : Prop :=
  ∃ value type, Placed form (.list (.text "let" :: v.name :: value :: type)) ∧
    ∀ t ∈ type, ∃ r, RefersTo declarations t r ∧ (r = none ∨ v.type = r)

/-- A variable is declared by an entry of an option, or by a statement of a block. -/
inductive VarDepicts (declarations : List Value) (function : Value) (v : LocalVar) : Prop where
  | entry {type : Value} (hmem : .list [v.name, type] ∈ entriesOf "locals" (arguments function))
      (htype : RefersTo declarations type v.type)
  | letVar {label successors form : Value} {stmts : List Value}
      (hblock : .list (.text "block" :: label :: successors :: stmts) ∈ blockForms function)
      (hform : form ∈ stmts) (hlet : LetDeclares declarations form v)

def ParamDepicts (declarations : List Value) (entry : Value) (q : Param) : Prop :=
  ∃ type, entry = .list [q.name, type] ∧ RefersTo declarations type q.type

/-- A function is what a form spells. Without a block form it has one empty block. Every expression
is in the trees of just one of the statements. -/
structure FunctionDepicts (declarations : List Value) (form : Value) (f : Function) : Prop where
  name : (arguments form).head? = some (.text f.name)
  modeled : f.modeled = ((arguments form).filter (hasHead "unmodeled")).isEmpty
  params : List.Forall₂ (ParamDepicts declarations) (entriesOf "params" (arguments form)) f.params
  locals : ∀ v ∈ f.locals, VarDepicts declarations form v
  blocks : blockForms form ≠ [] → List.Forall₂ (BlockDepicts declarations f.exprs (blockForms form))
    (blockForms form).zipIdx f.blocks
  noBlocks : blockForms form = [] → f.blocks = [{ id := 0 }]
  exprs : ∀ i, f.HasExpr i →
    ∃! k : Nat, ∃ root, f.roots[k]? = some root ∧ f.StmtEvaluates root.2 i

def FieldDepicts (declarations : List Value) (form : Value) (d : FieldDecl) : Prop :=
  ∃ type options, form = .list (d.name :: type :: options) ∧ RefersTo declarations type d.type

/-- A type is what the declaration at its position spells. -/
structure TypeDepicts (declarations : List Value) (form : Value × Nat) (t : TypeDecl) : Prop where
  id : t.id = form.2
  parts : ∃ name kind options, form.1 = .list (.text "type" :: name :: kind :: options) ∧
    kind? kind = some t.kind ∧
    ((lastOption? "path" options).getD [name]).head? = some t.path ∧
    List.Forall₂ (FieldDepicts declarations) ((lastOption? "fields" options).getD []) t.fields ∧
    List.Forall₂ (RefersTo declarations) ((lastOption? "args" options).getD []) t.args

/-- A program is what the forms of a document spell: its types are the declarations in their order,
and its functions the function forms in theirs. -/
structure ProgramDepicts (forms : List Value) (p : Program) : Prop where
  types : List.Forall₂ (TypeDepicts (forms.filter (hasHead "type")))
    (forms.filter (hasHead "type")).zipIdx p.types
  functions : List.Forall₂ (FunctionDepicts (forms.filter (hasHead "type")))
    (forms.filter (hasHead "function")) p.functions

/-- An expression within the expression that a form spells. -/
inductive Within : Value → Value → Prop where
  | self (form : Value) : Within form form
  | part {inner part form : Value} (hpart : part ∈ parts form) (hinner : Within inner part) :
      Within inner form

/-- If a form is that of a constructor, it does not set a field twice. -/
def SetsOnce (form : Value) : Prop :=
  ∀ type fields, form = .list (.text "new" :: type :: fields) → (fields.filterMap fieldName?).Nodup

def stmtParts : Value → List Value
  | .list (.text "let" :: _ :: value :: _) => [value]
  | .list [.text "assign", target, value] => [target, value]
  | .list [.text "eval", value] => [value]
  | _ => []

/-- The names that statements declare are texts, and no constructor sets a field twice. -/
structure StmtRegular (form : Value) : Prop where
  letName : ∀ name rest, Placed form (.list (.text "let" :: name :: rest)) → ∃ s, name = .text s
  setsOnce : ∀ inner, Placed form inner → ∀ x ∈ stmtParts inner, ∀ w, Within w x → SetsOnce w

def FunctionRegular (form : Value) : Prop :=
  ∀ label successors stmts,
    .list (.text "block" :: label :: successors :: stmts) ∈ blockForms form →
    ∀ s ∈ stmts, StmtRegular s

end Document
end AccountLint
