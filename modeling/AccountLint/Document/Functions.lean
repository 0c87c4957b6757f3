import AccountLint.Document.Exprs

/-! The functions of a document. -/
namespace AccountLint.Document

/-- The positions of blocks by label, the last one first, so that the last of several with one label
is found. -/
abbrev Labels := List (Value × Int)

def Labels.find? (labels : Labels) (label : Value) : Option Int :=
  (List.find? (fun entry => entry.1.same label) labels).map (·.2)

/-- Takes an option of a function: parameters, variables, or that there is no body. -/
def functionOption (env : Env) (d : FunctionDraft) (form : Value) : Except Fault FunctionDraft :=
  match head? form with
  | some "params" => do
    (← pairs "params" (arguments form)).foldlM (fun d (name, type) => do
      return d.param name (← env.names.resolve type)) d
  | some "locals" => do
    (← pairs "locals" (arguments form)).foldlM (fun d (name, type) => do
      return d.declare name (← env.names.resolve type)) d
  | some "unmodeled" => .ok { d with modeled := false }
  | some "block" => .ok d
  | _ => .error (.load (.unknownFunctionOption form))

/-- A block of a document: its label, the labels of its successors and its statements. -/
structure BlockForm where
  label : Value
  successors : List Value
  stmts : List Value

def blockForm : Value → Except Fault BlockForm
  | .list (_ :: label :: .list (.text "succ" :: successors) :: stmts) =>
    .ok ⟨label, successors, stmts⟩
  | form => .error (.load (.shortBlock form))

/-- Opens a block for every block form, where the first is open from the start, and records the
labels. -/
def openBlocks (d : FunctionDraft) (forms : List Value) :
    Except Fault (FunctionDraft × Labels × List BlockForm) :=
  forms.foldlM (fun (d, labels, blocks) form => do
    let b ← blockForm form
    if !b.label.isKey then throw .shape
    let d := if blocks.isEmpty then d else d.block.2
    return (d, (b.label, (blocks.length : Int)) :: labels, blocks ++ [b])) (d, [], [])

def addEdge (labels : Labels) (i : Nat) (d : FunctionDraft) (label : Value) :
    Except Fault FunctionDraft :=
  if !label.isKey then .error .shape
  else
    match labels.find? label with
    | some target => d.edge i target
    | none => .error (.load (.unknownLabel d.name label))

/-- Fills the block at a position: its edges, then its statements. -/
def fillBlock (env : Env) (labels : Labels) (d : FunctionDraft) (b : BlockForm) (i : Nat) :
    Except Fault FunctionDraft := do
  let d ← d.goto i
  let d ← b.successors.foldlM (addEdge labels i) d
  b.stmts.foldlM (stmt env) d

/-- The place at the start of the items of a function, if there is one, and the items behind it. -/
def leadingPlace : List Value → Except Fault (Location × List Value)
  | .list (.text "at" :: args) :: rest => do return (← location args, rest)
  | rest => .ok ({}, rest)

def functionDraft (env : Env) : Value → Except Fault FunctionDraft
  | .list (_ :: .text name :: rest) => do
    let (place, rest) ← leadingPlace rest
    let d := FunctionDraft.new name ⟨place.file, place.line, 0⟩
    let d ← rest.foldlM (functionOption env) d
    let (d, labels, blocks) ← openBlocks d (rest.filter (hasHead "block"))
    blocks.zipIdx.foldlM (fun d (b, i) => fillBlock env labels d b i) d
  | form => .error (.load (.unnamedFunction form))

/-- The functions of a document, each checked when it is complete. -/
def functions (env : Env) (forms : List Value) : Except Fault (List Function) :=
  forms.mapM fun form => do (← functionDraft env form).build

end AccountLint.Document
