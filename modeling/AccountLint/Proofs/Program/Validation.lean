import AccountLint.Proofs.Blames
import AccountLint.Program.Lookup

/-! What checking a function can fail for. It rejects a function that is not well formed, and breaks
off at a statement whose target can be no expression. -/
namespace AccountLint

/-- A target that is neither an expression nor a number. -/
def OddTarget (t : Target) : Prop := ∃ v, t = .other v ∧ ∀ x, v ≠ .float x

def OddStmt (s : Stmt) : Prop := ∃ t, s.target = some t ∧ OddTarget t

namespace Function

variable (f : Function)

private theorem checkRef_yields (limit : Int) (site : Site) (i : Int) :
    Safe Rejects (f.checkRef limit site i) := by
  unfold checkRef
  split
  · trivial
  · rfl

private theorem checkTarget_blames (site : Site) (t : Target) :
    Blames (fun e => OddTarget t ∧ e = .shape) (fun _ => True) (f.checkTarget site t) := by
  unfold checkTarget
  split
  · refine (Blames.of_yields (f.checkRef_yields _ _ _)).of_iff fun e => ?_
    simp [OddTarget]
  · split
    · exact ⟨trivial, fun e he => by simp [OddTarget] at he⟩
    · exact Or.inl rfl
  · rename_i v hfloat
    exact Or.inr ⟨⟨v, rfl, fun x hx => hfloat x (hx ▸ rfl)⟩, rfl⟩

private theorem checkStmt_blames (site : Site) (s : Stmt) :
    Blames (fun e => OddStmt s ∧ e = .shape) (fun _ => True) (f.checkStmt site s) := by
  unfold checkStmt
  refine .after (f.checkRef_yields _ _ _) fun _ _ => ?_
  split
  · rename_i hnone
    exact ⟨trivial, fun e he => by simp [OddStmt, hnone] at he⟩
  · rename_i t hsome
    refine (f.checkTarget_blames site t).of_iff fun e => ?_
    simp [OddStmt, hsome]

private theorem checkBlock_blames (i : Nat) (b : Block) :
    Blames (fun e => ∃ s ∈ b.stmts, OddStmt s ∧ e = .shape) (fun _ => True) (f.checkBlock i b) := by
  unfold checkBlock
  split
  · exact Or.inl rfl
  · refine .after (Yields.forM_safe fun s _ => ?_) fun _ _ => ?_
    · split
      · trivial
      · rfl
    · exact Blames.forM fun s _ => f.checkStmt_blames _ s

private theorem checkExpr_yields (i : Nat) (e : Expr) : Safe Rejects (f.checkExpr i e) := by
  unfold checkExpr
  split
  · exact rfl
  · exact Yields.forM_safe fun c _ => f.checkRef_yields _ _ c

/-- Checking a function fails for odd targets only. -/
theorem validate_blames :
    Blames (fun e => (∃ b ∈ f.blocks, ∃ s ∈ b.stmts, OddStmt s) ∧ e = .shape) (fun _ => True)
      f.validate := by
  unfold validate
  split
  · exact Or.inl rfl
  · have hblocks : Blames (fun e => ∃ x ∈ f.blocks.zipIdx, ∃ s ∈ x.1.stmts, OddStmt s ∧ e = .shape)
        (fun _ => True) (f.blocks.zipIdx.forM fun x => f.checkBlock x.2 x.1) :=
      Blames.forM fun x _ => f.checkBlock_blames x.2 x.1
    refine (hblocks.andThen fun _ _ => ?_).of_iff fun e => ?_
    · exact Yields.forM_safe fun x _ => f.checkExpr_yields x.2 x.1
    · refine Iff.trans ?_ (exists_mem_zipIdx_iff
        (P := fun b : Block => ∃ s ∈ b.stmts, OddStmt s ∧ e = .shape)).symm
      simp only [← exists_and_right, and_assoc]

end Function

end AccountLint
