import AccountLint.Document.Functions
import AccountLint.Document.Types
import AccountLint.Sexp.Reader

/-! Loading programs from documents. -/
namespace AccountLint

def Value.ofSexp (text : String) : Except Fault Value :=
  match Sexp.read text with
  | .error cause => .error (.load (.notSexp cause))
  | .ok form =>
    match form.value with
    | .error part => .error (.load (.notPlain part))
    | .ok v => .ok v

namespace Document

/-- The program of the forms of a document. Types may be used before they are declared. -/
def program (forms : List Value) : Except Fault Program := do
  let types := forms.filter (hasHead "type")
  match forms.find? fun f => !(hasHead "type" f || hasHead "function" f) with
  | some form => throw (.load (.strayForm form))
  | none =>
    let names ← typeNames types
    let table ← typeTable names types
    let fns ← functions ⟨names, table⟩ (forms.filter (hasHead "function"))
    return ⟨table.types, fns⟩

def load (text : String) : Except Fault Program := do
  match ← Value.ofSexp text with
  | .list (.text "program" :: forms) => program forms
  | _ => throw (.load .notProgram)

end Document
end AccountLint
