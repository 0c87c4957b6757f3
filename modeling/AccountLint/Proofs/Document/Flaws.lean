import AccountLint.Proofs.Document.Types
import AccountLint.Proofs.Blames

/-! What can be wrong with a document besides what it is rejected for. Names, labels and options are
used for what they should be, so that reading breaks off where a list stands for a name, or nothing
for a type. -/
namespace AccountLint.Document

/-- A declared type has a path that is no text. -/
def OddPath (declarations : List Value) : Prop :=
  ∃ name kind options path, .list (.text "type" :: name :: kind :: options) ∈ declarations ∧
    ((lastOption? "path" options).getD [name]).head? = some path ∧ ∀ s, path ≠ .text s

/-- The arguments of a call end with the mark of a type, but without the type. -/
def EndsBare (args : List Value) : Prop := args.getLast? = some (.list [.text "->"])

/-- The arguments of a call end without a type, or with the unknown one. -/
def Untyped (args : List Value) : Prop := ∀ type, resultAnnotation? args = some type → type = .text "_"

/-- A constructor may have a field with a name that is a text, with two exceptions. -/
def NamesField (name : Value) : Prop := ∃ s, name = .text s ∧ s ≠ "self" ∧ s ≠ "type_id"

/-- What is wrong with the form of an expression, apart from its parts. -/
inductive ExprFlaw (declarations : List Value) : Value → Fault → Prop where
  | callResult {path : Value} {args : List Value} (hend : EndsBare args) :
      ExprFlaw declarations (.list (.text "call" :: path :: args)) .bounds
  | methodResult {name receiver : Value} {args : List Value} (hend : EndsBare args) :
      ExprFlaw declarations (.list (.text "method" :: name :: receiver :: args)) .bounds
  | methodName {name receiver : Value} {args : List Value} (hname : name.isKey = false)
      (htype : Untyped args) :
      ExprFlaw declarations (.list (.text "method" :: name :: receiver :: args)) .shape
  | unwrap {method : String} {receiver : Value} {args : List Value}
      (hmethod : method ∈ TypeTable.unwrapMethods) (htype : Untyped args)
      (hodd : OddPath declarations) :
      ExprFlaw declarations (.list (.text "method" :: .text method :: receiver :: args)) .notText
  | fieldName {type name value : Value} {fields : List Value} (hfield : .list [name, value] ∈ fields)
      (hname : ¬NamesField name) :
      ExprFlaw declarations (.list (.text "new" :: type :: fields)) .shape

/-- Something is wrong with an expression or with a part of it. -/
def Flawed (declarations : List Value) (form : Value) (e : Fault) : Prop :=
  ∃ w, Within w form ∧ ExprFlaw declarations w e

/-- A variable may have a name that is a text or a number. -/
def NamesVariable (name : Value) : Prop :=
  (∃ s, name = .text s) ∨ (∃ i, name = .int i) ∨ ∃ x, name = .float x

/-- A statement declares a variable with another name. -/
def LetFlaw (form : Value) : Prop :=
  ∃ name rest, Placed form (.list (.text "let" :: name :: rest)) ∧ ¬NamesVariable name

def PartFlaw (declarations : List Value) (form : Value) (e : Fault) : Prop :=
  ∃ inner, Placed form inner ∧ ∃ x ∈ stmtParts inner, Flawed declarations x e

inductive BlockFlaw (declarations : List Value) : Value → Fault → Prop where
  | label {label name : Value} {successors stmts : List Value} (hname : name ∈ label :: successors)
      (hkey : name.isKey = false) :
      BlockFlaw declarations
        (.list (.text "block" :: label :: .list (.text "succ" :: successors) :: stmts)) .shape
  | letName {label form : Value} {successors stmts : List Value} (hform : form ∈ stmts)
      (h : LetFlaw form) :
      BlockFlaw declarations
        (.list (.text "block" :: label :: .list (.text "succ" :: successors) :: stmts)) .shape
  | expr {label form : Value} {successors stmts : List Value} {e : Fault} (hform : form ∈ stmts)
      (h : PartFlaw declarations form e) :
      BlockFlaw declarations
        (.list (.text "block" :: label :: .list (.text "succ" :: successors) :: stmts)) e

/-- The last option with a word has a list among its items. -/
def ListsIn (word : String) (options : List Value) : Prop :=
  ∃ v ∈ (lastOption? word options).getD [], v.isKey = false

def FieldFlaw (form : Value) : Prop :=
  ∃ name type options, form = .list (name :: type :: options) ∧
    ∃ word ∈ ["constraints", "distinct"], ListsIn word options

inductive TypeFlaw : Value → Fault → Prop where
  | name {first name kind : Value} {options : List Value} (h : name.isKey = false) :
      TypeFlaw (.list (first :: name :: kind :: options)) .shape
  | kind {first name kind : Value} {options : List Value} (h : kind.isKey = false) :
      TypeFlaw (.list (first :: name :: kind :: options)) .shape
  | noPath {first name kind : Value} {options : List Value} (h : lastOption? "path" options = some []) :
      TypeFlaw (.list (first :: name :: kind :: options)) .bounds
  | path {first name kind path : Value} {options rest : List Value}
      (hpath : lastOption? "path" options = some (path :: rest)) (h : path.isKey = false) :
      TypeFlaw (.list (first :: name :: kind :: options)) .shape
  | set {first name kind : Value} {options : List Value} {word : String}
      (hword : word ∈ ["traits", "attrs"]) (h : ListsIn word options) :
      TypeFlaw (.list (first :: name :: kind :: options)) .shape
  | field {first name kind field : Value} {options : List Value}
      (hfield : field ∈ (lastOption? "fields" options).getD []) (h : FieldFlaw field) :
      TypeFlaw (.list (first :: name :: kind :: options)) .shape

inductive DocumentFlaw (forms : List Value) : Fault → Prop where
  | type {form : Value} {e : Fault} (hform : form ∈ forms.filter (hasHead "type"))
      (h : TypeFlaw form e) : DocumentFlaw forms e
  | block {form block : Value} {e : Fault} (hform : form ∈ forms.filter (hasHead "function"))
      (hblock : block ∈ blockForms form)
      (h : BlockFlaw (forms.filter (hasHead "type")) block e) : DocumentFlaw forms e

/-- What is wrong with an expression is wrong with its form or with a part. -/
theorem flawed_iff {declarations : List Value} {form : Value} {e : Fault} :
    Flawed declarations form e ↔
      ExprFlaw declarations form e ∨ ∃ x ∈ parts form, Flawed declarations x e := by
  constructor
  · rintro ⟨w, hw, hflaw⟩
    cases hw with
    | self => exact Or.inl hflaw
    | part hpart hinner => exact Or.inr ⟨_, hpart, w, hinner, hflaw⟩
  · rintro (hflaw | ⟨x, hx, w, hw, hflaw⟩)
    · exact ⟨form, .self form, hflaw⟩
    · exact ⟨w, .part hx hw, hflaw⟩

end AccountLint.Document
