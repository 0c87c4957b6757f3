import AccountLint.Report.Note
import AccountLint.Rule.Defaults

/-! Registries: rules in order, one for a category. -/
namespace AccountLint

/-- The registered rules; no two are of one category. -/
structure Registry where
  rules : List Rule := []
deriving DecidableEq, Inhabited

namespace Registry

def get? (g : Registry) (c : Category) : Option Rule := g.rules.find? (·.category == c)

def contains (g : Registry) (c : Category) : Bool := g.rules.any (·.category == c)

/-- Registers a rule: at the end, or in the place of the one of its category. -/
def register (g : Registry) (r : Rule) : Registry × List Note :=
  if g.contains r.category then
    (⟨g.rules.map fun q => if q.category == r.category then r else q⟩, [.replacedRule r.category])
  else (⟨g.rules ++ [r]⟩, [])

def ofRules (rules : List Rule) : Registry × List Note :=
  rules.foldl (fun (g, notes) r =>
    let (g, more) := g.register r
    (g, notes ++ more)) ({}, [])

def default : Registry := ⟨Rule.defaults⟩

def unregister (g : Registry) (c : Category) : Registry := ⟨g.rules.filter (·.category != c)⟩

def setEnabled (g : Registry) (on : Bool) (c : Category) : Except Fault Registry :=
  if g.contains c then
    .ok ⟨g.rules.map fun r => if r.category == c then { r with enabled := on } else r⟩
  else .error (.config (.noRule c))

def enabled (g : Registry) : List Rule := g.rules.filter (·.enabled)

def byCoverage (g : Registry) (k : Coverage) : List Rule := g.enabled.filter (·.coverage == k)

def names (g : Registry) : List String := g.rules.map Rule.name

end Registry
end AccountLint
