import AccountLint.Program.Location
import AccountLint.Sorting

/-! The types that a program deserializes from account data, with the places where it does. -/
namespace AccountLint

/-- A place where a function deserializes a type. -/
structure DeserializationSite where
  type : Int
  function : String
  location : Location
deriving DecidableEq, Inhabited

/-- The order of sites of one type: by place, then by function. -/
def DeserializationSite.le (a b : DeserializationSite) : Bool :=
  ((a.location.cmp b.location).then (compare a.function b.function)).isLE

/-- A set of types, as the sites where they are deserialized. No site occurs twice. -/
structure TypeSet where
  sites : List DeserializationSite := []
deriving DecidableEq, Inhabited

namespace TypeSet

/-- Adds a site unless it is there. -/
def add (s : TypeSet) (site : DeserializationSite) : TypeSet := ⟨addNew s.sites site⟩

def ofSites (sites : List DeserializationSite) : TypeSet := sites.foldl add {}

/-- The ids of the types in increasing order. -/
def ids (s : TypeSet) : List Int := sortInts (distinct (s.sites.map (·.type)))

/-- The sites of a type, in their order. -/
def sitesOf (s : TypeSet) (type : Int) : List DeserializationSite :=
  sortBy DeserializationSite.le (s.sites.filter (·.type == type))

/-- Adds the sites of another set, type by type. -/
def merge (s t : TypeSet) : TypeSet := (t.ids.flatMap t.sitesOf).foldl add s

def size (s : TypeSet) : Nat := s.ids.length

def contains (s : TypeSet) (type : Int) : Bool := s.sites.any (·.type == type)

end TypeSet
end AccountLint
