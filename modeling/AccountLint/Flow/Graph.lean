import AccountLint.Flow.Closure
import AccountLint.Program.Basic

/-! Control flow graphs and reachability in them. -/
namespace AccountLint

/-- A control flow graph: the entry, and the successors of every block. -/
structure Graph where
  entry : Int
  edges : List (Int × List Int)
deriving DecidableEq, Inhabited

def Function.graph (f : Function) : Graph :=
  ⟨f.entry, f.blocks.map fun b => (b.id, b.successors)⟩

namespace Graph

def ids (g : Graph) : List Int := g.edges.map (·.1)

/-- The successors of a block, if there is one with this id; of several the last counts. -/
def successors? (g : Graph) (b : Int) : Option (List Int) := g.edges.reverse.lookup b

def successors (g : Graph) (b : Int) : List Int := (g.successors? b).getD []

def predecessors (g : Graph) (b : Int) : List Int :=
  (g.edges.filter fun e => e.2.contains b).map (·.1)

def targets (g : Graph) : List Int := g.edges.flatMap (·.2)

/-- The blocks that can be reached from the entry without passing through removed ones. If the entry
itself is removed there are none. -/
def reachableWithout (g : Graph) (removed : List Int) : List Int :=
  Flow.closure g.successors (g.entry :: g.targets) removed [] [g.entry]

def reachable (g : Graph) : List Int := if g.edges.isEmpty then [] else g.reachableWithout []

def isReachable (g : Graph) (b : Int) : Bool := g.reachable.contains b

end Graph
end AccountLint
