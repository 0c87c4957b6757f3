import AccountLint.Sorting

/-! Everything that can be reached step by step. -/
namespace AccountLint.Flow

/-- Adds the nodes of a work list to those seen, and what is one step away from them. Nodes that are
blocked or none of `all` are passed over. -/
def closure (next : Int → List Int) (all blocked seen : List Int) : List Int → List Int
  | [] => seen
  | x :: work =>
    if _h : x ∈ all ∧ x ∉ blocked ∧ x ∉ seen then
      closure next all blocked (x :: seen) (next x ++ work)
    else closure next all blocked seen work
termination_by work => (unseen all seen, work.length)
decreasing_by
  · exact Prod.Lex.left _ _ (unseen_cons_lt _h.1 _h.2.2)
  · exact Prod.Lex.right _ (Nat.lt_succ_self _)

end AccountLint.Flow
