import AccountLint.Alias.AccessPath
import AccountLint.Rule.Basic

/-! Sinks: what a function does that calls for a guard. -/
namespace AccountLint

/-- An operation that calls for a guard of some places. An unconditional sink is reported whatever
guards there are, and a message of its own replaces that of the rule. -/
structure Sink where
  category : Category
  block : Int
  paths : List AccessPath := []
  location : Location := {}
  expr : Option Int := none
  type : Option Int := none
  details : List (String × String) := []
  secondary : List Location := []
  message : String := ""
  unconditional : Bool := false
deriving DecidableEq, Inhabited

namespace Sink

/-- The texts of the places of a sink, in increasing order. -/
def pathTexts (s : Sink) : Except Fault (List String) := do
  return sortTexts (← s.paths.mapM AccessPath.display)

/-- What the templates of a rule are filled with: the places, unless the details say otherwise, and
the details. -/
def fields (s : Sink) : Except Fault (List (String × String)) := do
  let path := ", ".intercalate (← s.pathTexts)
  return if (s.details.lookup "path").isSome then s.details else ("path", path) :: s.details

end Sink
end AccountLint
