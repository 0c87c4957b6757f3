import AccountLint.Fault
import AccountLint.Flow.Graph

/-! The order in which blocks are visited: in reverse of the order in which a depth first search
leaves them. -/
namespace AccountLint.Graph

/-- What is left to do at blocks not visited: their edges, and entering and leaving them. -/
def pending (visited : List Int) : List (Int × List Int) → Nat
  | [] => 0
  | (b, out) :: rest =>
    (if visited.contains b then 0 else out.length + 2) + pending visited rest

/-- What is left to do at blocks entered: their edges, and leaving them. -/
def entered : List (Int × List Int) → Nat
  | [] => 0
  | (_, out) :: rest => out.length + 1 + entered rest

private theorem pending_cons_le (x : Int) (visited : List Int) (es : List (Int × List Int)) :
    pending (x :: visited) es ≤ pending visited es := by
  induction es with
  | nil => exact Nat.le_refl _
  | cons e rest ih =>
    obtain ⟨b, out⟩ := e
    simp only [pending, List.contains_cons]
    cases h : visited.contains b <;> cases h' : (b == x) <;> simp <;> omega

/-- Visiting a block pays for its edges and for leaving it. -/
theorem pending_cons_lt {visited : List Int} {es : List (Int × List Int)} {x : Int}
    {out : List Int} (hm : (x, out) ∈ es) (hv : visited.contains x = false) :
    pending (x :: visited) es + out.length + 2 ≤ pending visited es := by
  induction es with
  | nil => cases hm
  | cons e rest ih =>
    obtain ⟨b, out'⟩ := e
    have hle := pending_cons_le x visited rest
    rcases List.mem_cons.mp hm with h | h
    · obtain ⟨rfl, rfl⟩ := Prod.mk.inj h
      simp only [pending, List.contains_cons, beq_self_eq_true, Bool.true_or, if_true, hv]
      simp
      omega
    · have := ih h
      have hw : (if ((x :: visited).contains b) = true then 0 else out'.length + 2) ≤
          (if (visited.contains b) = true then 0 else out'.length + 2) := by
        simp only [List.contains_cons]
        cases h : visited.contains b <;> cases h' : (b == x) <;> simp
      simp only [pending]
      omega

theorem mem_edges_of_successors? {g : Graph} {b : Int} {out : List Int}
    (h : g.successors? b = some out) : (b, out) ∈ g.edges :=
  List.mem_reverse.mp (mem_of_lookup h)

/-- Goes on with a search: the stack holds the blocks entered with the edges not yet followed, and
the order the blocks left, the last one first. -/
def search (g : Graph) (visited order : List Int) :
    List (Int × List Int) → Except Fault (List Int × List Int)
  | [] => .ok (visited, order)
  | (b, []) :: stack => search g visited (b :: order) stack
  | (b, c :: out) :: stack =>
    if _hv : visited.contains c = true then search g visited order ((b, out) :: stack)
    else
      match _h : g.successors? c with
      | none => .error .noSuchBlock
      | some next => search g (c :: visited) order ((c, next) :: (b, out) :: stack)
termination_by stack => pending visited g.edges + entered stack
decreasing_by
  · simp only [entered, List.length_nil]; omega
  · simp only [entered, List.length_cons]; omega
  · have := pending_cons_lt (mem_edges_of_successors? _h) (by simpa using _hv)
    simp only [entered, List.length_cons]
    omega

/-- The blocks that can be reached in reverse post-order, then the others as they come. -/
def visitOrder (g : Graph) : Except Fault (List Int) :=
  if g.edges.isEmpty then .ok []
  else
    match g.successors? g.entry with
    | none => .error .noSuchBlock
    | some next => do
      let (visited, order) ← search g [g.entry] [] [(g.entry, next)]
      return order ++ g.ids.filter fun b => !visited.contains b

end AccountLint.Graph
