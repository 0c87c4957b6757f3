import AccountLint.Program.Location
import AccountLint.Rule.Basic
import AccountLint.Sorting

/-! Diagnostics: what the rules find. -/
namespace AccountLint

inductive Confidence where
  /-- There is no guard at all. -/
  | high
  /-- There are guards, but not for this sink, or the finding is about types. -/
  | medium
deriving DecidableEq, Inhabited

inductive Evidence where
  | none
  | sink (block : Int) (paths : List String) (guards : Nat)
  | types (path : Value) (deserialized : Nat)
  | declaration (path : Value)
deriving DecidableEq, Inhabited

structure Diagnostic where
  category : String
  errorId : String
  message : String
  severity : Severity := .warning
  location : Location := {}
  secondary : List Location := []
  hint : String := ""
  confidence : Confidence := .medium
  cwe : Int := 0
  function : String := ""
  evidence : Evidence := .none
deriving DecidableEq, Inhabited

def Severity.word : Severity → String
  | .error => "error"
  | .warning => "warning"
  | .style => "style"
  | .performance => "performance"
  | .information => "information"

namespace Diagnostic

/-- The order of findings: by place, category and message. -/
def cmp (a b : Diagnostic) : Ordering :=
  (a.location.cmp b.location).then
    ((compare a.category b.category).then (compare a.message b.message))

def le (a b : Diagnostic) : Bool := (a.cmp b).isLE

def sort (ds : List Diagnostic) : List Diagnostic := sortBy le ds

def placeFields (l : Location) : List (String × Value) :=
  [("file", .text l.file), ("linenr", .int l.line), ("column", .int l.column)]

/-- A field, unless there is nothing in it. -/
def whenSome (given : Bool) (key : String) (v : Value) : List (String × Value) :=
  if given then [(key, v)] else []

def record (d : Diagnostic) : Value :=
  .ofFields <| placeFields d.location ++
    [("severity", .text d.severity.word), ("category", .text d.category),
     ("errorId", .text d.errorId), ("message", .text d.message)] ++
    whenSome (!d.hint.isEmpty) "hint" (.text d.hint) ++ whenSome (d.cwe != 0) "cwe" (.int d.cwe) ++
    whenSome (!d.function.isEmpty) "function" (.text d.function) ++
    whenSome (!d.secondary.isEmpty) "secondary"
      (.list (d.secondary.map fun l => .ofFields (placeFields l)))

/-- A finding on one line, as compilers print theirs. -/
def line (d : Diagnostic) : String :=
  d.location.display ++ ": " ++ d.severity.word ++ ": " ++ d.message ++ " [" ++ d.errorId ++ "]"

end Diagnostic
end AccountLint
