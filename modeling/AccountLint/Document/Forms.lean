import AccountLint.Program.Basic
import AccountLint.ValueSet

/-! The forms that documents are made of: lists that begin with a word. -/
namespace AccountLint.Document

def head? : Value → Option String
  | .list (.text s :: _) => some s
  | _ => none

def arguments : Value → List Value
  | .list (_ :: xs) => xs
  | _ => []

def hasHead (word : String) (form : Value) : Bool := head? form == some word

/-- The options of a form, the last one first, so that the last of several with one word is found.
-/
abbrev Options := List (String × List Value)

/-- The options among the items of a form, all of which have to begin with a word. -/
def options (forms : List Value) : Except Fault Options :=
  forms.foldlM (fun found form =>
    match head? form with
    | some word => .ok ((word, arguments form) :: found)
    | none => .error (.load (.notOption form))) []

def Options.items (o : Options) (word : String) : List Value := (o.lookup word).getD []

/-- The integer of an option, or a default if the option is absent or empty. -/
def Options.int (o : Options) (word : String) (default : Option Int) :
    Except Fault (Option Int) :=
  match o.items word with
  | [] => .ok default
  | .int i :: _ => .ok (some i)
  | v :: rest => .error (.load (.notInteger word v (.list (v :: rest))))

/-- A line and a column, either of which may be left out. -/
def lineColumn (file : String) (args : List Value) : Except Fault Location :=
  match args[0]?.getD (.int 0), args[1]?.getD (.int 0) with
  | .int line, .int column => .ok ⟨file, line, column⟩
  | _, _ => .error (.load (.notPosition (.list args)))

/-- A place: perhaps a file, then perhaps a line and a column. -/
def location : List Value → Except Fault Location
  | .text file :: args => lineColumn file args
  | args => lineColumn "" args

def Options.location (o : Options) : Except Fault Location :=
  match o.lookup "at" with
  | some args => Document.location args
  | none => .ok {}

def pairs (part : String) (items : List Value) : Except Fault (List (Value × Value)) :=
  items.mapM fun item =>
    match item with
    | .list [name, type] => .ok (name, type)
    | _ => .error (.load (.notPair part item))

/-- The positions of declared types by name. -/
abbrev TypeNames := List (Value × Int)

def TypeNames.find? (names : TypeNames) (name : Value) : Option Int :=
  (List.find? (fun entry => entry.1.same name) names).map (·.2)

/-- The type that a name stands for; an underscore stands for an unknown type. -/
def TypeNames.resolve (names : TypeNames) (name : Value) : Except Fault (Option TypeRef) :=
  if name == .text "_" then .ok none
  else
    match names.find? name with
    | some i => .ok (some (.index i))
    | none => .error (.load (.unknownType name))

end AccountLint.Document
