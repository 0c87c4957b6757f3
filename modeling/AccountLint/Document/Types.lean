import AccountLint.Build.TypeTable
import AccountLint.Document.Forms

/-! The type declarations of a document. -/
namespace AccountLint.Document

def kind? : Value → Option TypeKind
  | .text "struct" => some .struct
  | .text "enum" => some .enum
  | .text "array" => some .array
  | .text "primitive" => some .primitive
  | .text "opaque" => some .hidden
  | _ => none

/-- The names of the declared types in order. Every declaration has a name and a kind, and no name
is declared twice. -/
def typeNames (forms : List Value) : Except Fault TypeNames :=
  forms.foldlM (fun names form =>
    match form with
    | .list (_ :: name :: _ :: _) =>
      if !name.isKey then .error .shape
      else if (names.find? name).isSome then .error (.load (.duplicateType name))
      else .ok (names ++ [(name, (names.length : Int))])
    | _ => .error (.load (.shortType form))) []

def field (names : TypeNames) : Value → Except Fault FieldDecl
  | .list (name :: type :: forms) => do
    let o ← options forms
    let type ← names.resolve type
    let constraints ← setOf (o.items "constraints")
    let distinctFrom ← setOf (o.items "distinct")
    return ⟨name, type, constraints, distinctFrom, ← o.location⟩
  | form => .error (.load (.shortField form))

/-- The path of a declared type, which is its name unless an option gives another. -/
def typePath (name : Value) (o : Options) : Except Fault Value :=
  match o.lookup "path" with
  | none => .ok name
  | some (path :: _) => .ok path
  | some [] => .error .bounds

def typeDecl (names : TypeNames) (form name kind : Value) (forms : List Value) :
    Except Fault TypeDecl := do
  if !kind.isKey then throw .shape
  match kind? kind with
  | none => throw (.load (.unknownKind kind form))
  | some kind =>
    let o ← options forms
    let length ← o.int "len" none
    let path ← typePath name o
    let fields ← (o.items "fields").mapM (field names)
    let variants ← o.int "variants" (some 0)
    let args ← (o.items "args").mapM names.resolve
    let location ← o.location
    let traits ← setOf (o.items "traits")
    let attributes ← setOf (o.items "attrs")
    return { id := 0, path, kind, fields, variants := variants.getD 0, traits, attributes, args,
             length, location }

def addType (names : TypeNames) (table : TypeTable) (form : Value) : Except Fault TypeTable :=
  match form with
  | .list (_ :: name :: kind :: forms) => do
    let (table, id) := table.add (← typeDecl names form name kind forms)
    let _ ← id
    return table
  | _ => .error (.load (.shortType form))

def typeTable (names : TypeNames) (forms : List Value) : Except Fault TypeTable :=
  forms.foldlM (addType names) {}

end AccountLint.Document
