import AccountLint.Cosplay.Verdict
import AccountLint.Json.Reader
import AccountLint.Rule.Registry
import AccountLint.Source

/-! Configurations: which categories run, and which names are tags. -/
namespace AccountLint

/-- A configuration. Without enabled categories all run, and a disabled one never does. -/
structure Config where
  enabled : List Category := []
  disabled : List Category := []
  jobs : Int := 1
  tags : List Value := defaultTags
deriving DecidableEq, Inhabited

namespace Config

def category : Value → Except Fault Category
  | .text s => Category.parse s
  | _ => .error .notText

/-- Categories: one text, or the entries of a value. -/
def categories : Value → Except Fault (List Category)
  | .text s => do return [← Category.parse s]
  | v => do return distinct (← (← v.entries).mapM category)

def fieldOr {α : Type} (v : Value) (key : String) (default : α)
    (read : Value → Except Fault α) : Except Fault α :=
  match v.field? key with
  | none => .ok default
  | some x => read x

/-- The number of jobs, which has to be a positive integer. -/
def checkJobs : Value → Except Fault Int
  | .int n => if n < 1 then .error (.config (.badJobs (.int n))) else .ok n
  | v => .error (.config (.badJobs v))

def unknownKeys : Value → List String
  | .record keys _ => sortTexts (distinct (keys.filter fun k => !configKeys.contains k))
  | _ => []

def ofValue (v : Value) : Except Fault Config := do
  match unknownKeys v with
  | [] => pure ()
  | keys => throw (.config (.unknownKeys keys))
  let enabled ← fieldOr v "enabled" [] categories
  let disabled ← fieldOr v "disabled" [] categories
  let tags ← fieldOr v "tag_names" defaultTags fun x => do setOf (← x.entries)
  let jobs ← fieldOr v "jobs" 1 checkJobs
  return ⟨enabled, disabled, jobs, tags⟩

def ofSource (s : Source) : Except Fault Config :=
  match s.bytes with
  | none => .error (.config (.unreadable s.path))
  | some bytes => do
    match Json.read? (← decode bytes) with
    | none => throw (.config (.notJson s.path))
    | some (.record keys values) => ofValue (.record keys values)
    | some _ => throw (.config (.notObject s.path))

def runs (c : Config) (category : Category) : Bool :=
  !c.disabled.contains category && (c.enabled.isEmpty || c.enabled.contains category)

def apply (c : Config) (g : Registry) : Registry × List Note :=
  (⟨g.rules.map fun r => { r with enabled := c.runs r.category }⟩,
   (c.enabled.filter fun k => !g.contains k).map Note.noRule)

end Config
end AccountLint
