import AccountLint.Flow.Graph

/-! Dominance: a block dominates another if removing it cuts the other off from the entry. -/
namespace AccountLint.Graph

/-- Whether removing a block cuts another off; the entry cuts off every block. -/
def cutsOff (g : Graph) (a b : Int) : Bool := a == g.entry || !(g.reachableWithout [a]).contains b

/-- The dominators of a block that can be reached, itself included. -/
def dominators (g : Graph) (b : Int) : List Int := g.reachable.filter fun a => g.cutsOff a b

/-- Whether a block dominates another. A block dominates itself, and every block dominates one that
cannot be reached. -/
def dominates (g : Graph) (a b : Int) : Bool :=
  a == b || !g.isReachable b || (g.isReachable a && g.cutsOff a b)

def strictlyDominates (g : Graph) (a b : Int) : Bool := a != b && g.dominates a b

def allDominators (g : Graph) (b : Int) : List Int :=
  if g.isReachable b then g.dominators b else distinct g.ids

/-- Whether every path from the entry to a block passes through a group of blocks. -/
def setDominates (g : Graph) (group : List Int) (b : Int) : Bool :=
  if group.contains b || !g.isReachable b then true
  else if group.isEmpty then false
  else !(g.reachableWithout group).contains b

def greatest? (measure : Int → Nat) : List Int → Option Int
  | [] => none
  | x :: xs =>
    match greatest? measure xs with
    | none => some x
    | some y => if measure y ≤ measure x then some x else some y

/-- The blocks that can be reached, each with those that it cuts off. -/
def dominated (g : Graph) : List (Int × List Int) :=
  g.reachable.map fun a =>
    let rest := g.reachableWithout [a]
    (a, g.reachable.filter fun b => a == g.entry || !rest.contains b)

/-- The blocks that cut off a block, according to such a table. -/
def cuttersIn (table : List (Int × List Int)) (b : Int) : List Int :=
  (table.filter fun row => row.2.contains b).map (·.1)

/-- The closest strict dominator of a block according to such a table: the one with the most
dominators. The entry counts as its own, and blocks that cannot be reached have none. -/
def idomIn (g : Graph) (table : List (Int × List Int)) (b : Int) : Option Int :=
  let cutters := cuttersIn table b
  if cutters.isEmpty then none
  else if b == g.entry then some b
  else greatest? (fun x => (cuttersIn table x).length) (cutters.filter (· != b))

def idom? (g : Graph) (b : Int) : Option Int := g.idomIn g.dominated b

/-- The edges from blocks that can be reached to their dominators, by source. -/
def backEdges (g : Graph) : List (Int × Int) :=
  (sortInts g.reachable).flatMap fun s =>
    ((g.successors s).filter fun d => g.dominates d s).map fun d => (s, d)

/-- The natural loop of a back edge: its target, and the blocks from which its source can be reached
without passing through the target. -/
def naturalLoop (g : Graph) (edge : Int × Int) : List Int :=
  if edge.1 == edge.2 then [edge.2]
  else edge.2 :: Flow.closure g.predecessors g.ids [edge.2] [] [edge.1]

def naturalLoops (g : Graph) : List ((Int × Int) × List Int) :=
  (distinct g.backEdges).map fun e => (e, g.naturalLoop e)

def loopBlocks (g : Graph) : List Int := distinct (g.naturalLoops.flatMap (·.2))

end AccountLint.Graph
