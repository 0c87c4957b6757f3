import AccountLint.Cosplay.TypeSet
import AccountLint.Rule.Paths

/-! Which deserialized types cannot be told apart from their bytes. A single enum describes itself.
Structs that all have a field of one enum can be told apart if it has enough variants. Any other
struct needs a discriminant of its own, and several enums can never be told apart. -/
namespace AccountLint

/-- The names of leading fields that are taken for a tag. -/
def defaultTags : List Value :=
  ["discriminant", "discriminator", "tag", "kind", "account_type", "account_kind"].map Value.text

/-- Whether a type can be told apart by itself: by a fact, or by the tag that it leads with. -/
def TypeDecl.hasDiscriminant (t : TypeDecl) (p : Program) (tags : List Value) :
    Except Fault Bool := do
  if ← t.hasFact TypeFact.discriminant then return true
  match t.isStruct, t.fields with
  | true, lead :: _ =>
    match ← p.type? lead.type with
    | some d => if d.isEnum then return true else lead.name.isIn tags
    | none => lead.name.isIn tags
  | _, _ => return false

def TypeDecl.embeds (t : TypeDecl) (type : Int) : Bool :=
  t.fields.any fun f => f.type == some (.index type)

/-- The first enum that all of some structs embed and that has a variant for each of them, or all
but one. -/
def Program.umbrella? (p : Program) (structs : List TypeDecl) (n : Int) : Option TypeDecl :=
  p.enums.find? fun e => n - 1 ≤ e.variants && structs.all (·.embeds e.id)

/-- The same search among types some of which are unknown. An unknown type is a fault only where all
types in front of it embed an enum. -/
def Program.umbrellaOf (p : Program) (types : List (Option TypeDecl)) (n : Int) :
    Except Fault (Option TypeDecl) :=
  match p.umbrella? ((types.takeWhile Option.isSome).filterMap id) n with
  | some e => if types.all Option.isSome then .ok (some e) else .error .notText
  | none => .ok none

/-- A type that cannot be told apart, with its sites. -/
structure TypeVerdict where
  type : TypeDecl
  ambiguous : Bool
  sites : List DeserializationSite
deriving DecidableEq, Inhabited

namespace TypeSet

def types (s : TypeSet) (p : Program) : Except Fault (List TypeDecl) :=
  collectM (fun i => p.type? (some (.index i))) s.ids

def areSecure (p : Program) (ts : List TypeDecl) : Bool :=
  match ts with
  | [] => true
  | [t] => t.isEnum || (t.isStruct && (p.umbrella? [t] 1).isSome)
  | ts => ts.all TypeDecl.isStruct && (p.umbrella? ts ts.length).isSome

def judge (s : TypeSet) (p : Program) (tags : List Value) (ts : List TypeDecl) (t : TypeDecl) :
    Except Fault (Option TypeVerdict) := do
  if t.isEnum then
    return if 1 < (ts.filter TypeDecl.isEnum).length then some ⟨t, true, s.sitesOf t.id⟩ else none
  if ← t.hasDiscriminant p tags then return none
  return some ⟨t, false, s.sitesOf t.id⟩

/-- The types of the set that cannot be told apart. -/
def verdict (s : TypeSet) (p : Program) (tags : List Value) : Except Fault (List TypeVerdict) := do
  let ts ← s.types p
  if areSecure p ts then return []
  collectM (s.judge p tags ts) ts

end TypeSet
end AccountLint
