import AccountLint.Rule.Category
import AccountLint.Sexp.Basic
import AccountLint.Sexp.Token

/-! What can go wrong. A fault names its cause; its wording is in `message`. -/
namespace AccountLint

inductive Site where
  | block (id : Int)
  | expr (id : Int)
deriving DecidableEq, Inhabited

def Site.display : Site → String
  | .block id => "block " ++ toString id
  | .expr id => "expression " ++ toString id

/-- Why a model of a program is rejected. -/
inductive ModelFault where
  | entryMissing (function : String) (entry : Int)
  | blockId (function : String) (position : Nat) (id : Int)
  | danglingSuccessor (function : String) (block successor : Int)
  | exprReference (function : String) (site : Site) (reference : Value)
  | exprId (function : String) (position : Nat) (id : Int)
  | exprRange (function : String) (id : Int)
  | blockRange (function : String) (id : Int)
  | noBlock (function : String) (id : Int)
  | typeRange (id : Int)

def ModelFault.message : ModelFault → String
  | .entryMissing f entry => f ++ ": entry block " ++ toString entry ++ " missing"
  | .blockId f position id => f ++ ": block at " ++ toString position ++ " has id " ++ toString id
  | .danglingSuccessor f block successor =>
    f ++ ": block " ++ toString block ++ " has dangling successor " ++ toString successor
  | .exprReference f site reference =>
    f ++ ": " ++ site.display ++ " refers to expression " ++ reference.display
  | .exprId f position id =>
    f ++ ": expression at " ++ toString position ++ " has id " ++ toString id
  | .exprRange f id => f ++ ": expression id " ++ toString id ++ " out of range"
  | .blockRange f id => f ++ ": block id " ++ toString id ++ " out of range"
  | .noBlock f id => f ++ ": no block " ++ toString id
  | .typeRange id => "type id " ++ toString id ++ " out of range"

/-- Why a document is rejected; most causes keep the form that shows them. -/
inductive LoadFault where
  | unreadable (path : String)
  | notSexp (cause : Sexp.ReadFault)
  | notPlain (form : Sexp)
  | notProgram
  | strayForm (form : Value)
  | shortType (form : Value)
  | duplicateType (name : Value)
  | unknownType (name : Value)
  | unknownKind (kind : Value) (form : Value)
  | notOption (form : Value)
  | notPair (part : String) (form : Value)
  | notInteger (option : String) (value : Value) (form : Value)
  | notPosition (form : Value)
  | shortField (form : Value)
  | unnamedFunction (form : Value)
  | unknownFunctionOption (form : Value)
  | shortBlock (form : Value)
  | unknownLabel (function : String) (label : Value)
  | notLet (form : Value)
  | notStatement (form : Value)
  | notExpression (form : Value)
  | notConstructorField (form : Value)

def missingFile (path : String) : String :=
  "cannot read " ++ path ++ ": [Errno 2] No such file or directory: " ++ Text.quoted path

def LoadFault.message : LoadFault → String
  | .unreadable path => missingFile path
  | .notSexp cause => "failed to parse S-expression: " ++ cause.message
  | .notPlain form => "unsupported S-expression element: " ++ form.repr
  | .notProgram => "document must be a (program ...) form"
  | .strayForm form => "unexpected top-level form: " ++ form.repr
  | .shortType form => "type needs a name and a kind: " ++ form.repr
  | .duplicateType name => "duplicate type " ++ name.repr
  | .unknownType name => "unknown type " ++ name.repr
  | .unknownKind kind form => "unknown type kind " ++ kind.repr ++ ": " ++ form.repr
  | .notOption form => "expected an option form: " ++ form.repr
  | .notPair part form => part ++ " entries must be (NAME TYPE): " ++ form.repr
  | .notInteger option value form =>
    "(" ++ option ++ " N) needs an integer, got " ++ value.repr ++ ": " ++ form.repr
  | .notPosition form => "line and column must be integers: " ++ form.repr
  | .shortField form => "field needs a name and a type: " ++ form.repr
  | .unnamedFunction form => "function needs a name: " ++ form.repr
  | .unknownFunctionOption form => "unknown function option: " ++ form.repr
  | .shortBlock form => "block needs a label and (succ ...): " ++ form.repr
  | .unknownLabel f label => f ++ ": unknown block label " ++ label.repr
  | .notLet form => "let takes a name, a value and an optional type: " ++ form.repr
  | .notStatement form => "malformed statement: " ++ form.repr
  | .notExpression form => "malformed expression: " ++ form.repr
  | .notConstructorField form => "constructor field must be (NAME EXPR): " ++ form.repr

/-- Why a configuration is rejected. -/
inductive ConfigFault where
  | unreadable (path : String)
  | notJson (path : String)
  | notObject (path : String)
  | unknownKeys (keys : List String)
  | badJobs (jobs : Value)
  | unknownCategory (text : String)
  | noRule (category : Category)

def configKeys : List String := ["disabled", "enabled", "jobs", "tag_names"]

def ConfigFault.message : ConfigFault → String
  | .unreadable path => missingFile path
  | .notJson path => path ++ ": invalid JSON"
  | .notObject path => path ++ ": expected a JSON object"
  | .unknownKeys keys => "unknown configuration keys: " ++ ", ".intercalate keys
  | .badJobs jobs => "jobs must be a positive integer, got " ++ jobs.repr
  | .unknownCategory text => "unknown category " ++ Text.quoted text
  | .noRule category => "no rule registered for " ++ Text.quoted category.id

def ConfigFault.hint : ConfigFault → String
  | .unknownKeys _ => "known keys: " ++ ", ".intercalate configKeys
  | .unknownCategory _ => "one of: " ++ ", ".intercalate (Category.all.map Category.id)
  | _ => ""

/-- What went wrong: a model, a document or a configuration is rejected with a message; otherwise a
value is not fit for the use that is made of it. -/
inductive Fault where
  | model (cause : ModelFault)
  | load (cause : LoadFault)
  | config (cause : ConfigFault)
  /-- A list where a key is needed, or another value of the wrong shape. -/
  | shape
  /-- A position outside a list or a text. -/
  | bounds
  /-- A value without the parts that are asked of it, such as one that is no text. -/
  | notText
  /-- Too few parts, or a template that is not well formed. -/
  | parts
  /-- A number outside the range that its use allows. -/
  | tooLarge
  /-- Bytes that are no text. -/
  | encoding
  /-- A block that is not there. -/
  | noSuchBlock

inductive Rejection where
  | any
  | model
  | load
  | config
deriving DecidableEq, Inhabited

def Rejection.code : Rejection → String
  | .any => "SL-0000"
  | .model => "SL-1000"
  | .load => "SL-2000"
  | .config => "SL-3000"

/-- A kind of rejections and the kinds it is one of: a document that is rejected is a model that is.
-/
def Rejection.lineage : Rejection → List Rejection
  | .any => [.any]
  | .model => [.model, .any]
  | .load => [.load, .model, .any]
  | .config => [.config, .any]

def withForm (message : String) : Value → String
  | .null => message
  | form => message ++ ": " ++ form.repr

def report (kind : Rejection) (message hint : String) : String :=
  "[" ++ kind.code ++ "] " ++ message ++ (if hint.isEmpty then "" else " (hint: " ++ hint ++ ")")

def Fault.message? : Fault → Option String
  | .model cause => some (report .model cause.message "")
  | .load cause => some (report .load cause.message "")
  | .config cause => some (report .config cause.message cause.hint)
  | _ => none

def Fault.rejectsModel : Fault → Bool
  | .model _ | .load _ => true
  | _ => false

end AccountLint
