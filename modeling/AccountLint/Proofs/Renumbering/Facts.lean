import AccountLint.Facts
import AccountLint.Proofs.Alias.Chains
import AccountLint.Proofs.Renumbering.Types

/-! The facts of a function whose types are renumbered: but for the types of its expressions they
are the same. -/
namespace AccountLint

variable {ρ : Equiv.Perm Int}

private theorem fromEnd?_map {α β : Type} (g : α → β) (xs : List α) (i : Int) :
    fromEnd? (xs.map g) i = (fromEnd? xs i).map g := by
  unfold fromEnd?
  simp only [List.length_map, List.getElem?_map]
  split
  · rfl
  · split <;> rfl

namespace Function

variable (f : Function)

private theorem exprs_length_renumber :
    (f.renumber ρ).exprs.length = f.exprs.length := List.length_map ..

private theorem expr_renumber (i : Int) :
    (f.renumber ρ).expr i = (f.expr i).map (Expr.renumber ρ) := by
  unfold expr
  rw [show (f.renumber ρ).exprs = f.exprs.map (Expr.renumber ρ) from rfl, fromEnd?_map]
  cases fromEnd? f.exprs i <;> rfl

private theorem walkFrom_renumber (depth : Nat) (i : Int) :
    (f.renumber ρ).walkFrom depth i = (f.walkFrom depth i).map (List.map (Expr.renumber ρ)) := by
  induction depth generalizing i with
  | zero => rfl
  | succ depth ih =>
    rw [walkFrom, walkFrom, expr_renumber, bind_exceptMap, exceptMap_bind]
    refine bind_congr fun e => ?_
    have hbelow : (e.renumber ρ).children.mapM ((f.renumber ρ).walkFrom depth) =
        (e.children.mapM (f.walkFrom depth)).map (List.map (List.map (Expr.renumber ρ))) := by
      rw [← mapM_exceptMap]
      exact congrArg (fun g => e.children.mapM g) (funext ih)
    rw [hbelow, bind_exceptMap, exceptMap_bind]
    refine bind_congr fun below => ?_
    rw [← List.map_flatten]
    rfl

private theorem walk_renumber (i : Int) :
    (f.renumber ρ).walk i = (f.walk i).map (List.map (Expr.renumber ρ)) := by
  unfold walk
  rw [exprs_length_renumber]
  exact f.walkFrom_renumber _ i

private theorem checkBlock_renumber (i : Nat) (b : Block) :
    (f.renumber ρ).checkBlock i b = f.checkBlock i b := by
  have hstmt : (f.renumber ρ).checkStmt = f.checkStmt := by
    funext site s
    unfold checkStmt checkTarget
    rw [exprs_length_renumber]
    rfl
  unfold checkBlock
  rw [hstmt]
  rfl

private theorem validate_renumber : (f.renumber ρ).validate = f.validate := by
  unfold validate
  have hexprs : (f.renumber ρ).exprs.zipIdx.forM (fun x => (f.renumber ρ).checkExpr x.2 x.1) =
      f.exprs.zipIdx.forM fun x => f.checkExpr x.2 x.1 := by
    change (f.exprs.map (Expr.renumber ρ)).zipIdx.forM _ = _
    rw [List.zipIdx_map]
    generalize f.exprs.zipIdx = entries
    induction entries with
    | nil => rfl
    | cons x entries ih => exact bind_congr fun _ => ih
  rw [hexprs]
  simp only [checkBlock_renumber]
  rfl

private theorem rawPathFrom_renumber (depth : Nat) (i : Int) :
    (f.renumber ρ).rawPathFrom depth i = f.rawPathFrom depth i := by
  induction depth generalizing i with
  | zero => rfl
  | succ depth ih =>
    rw [rawPathFrom, rawPathFrom, expr_renumber, bind_exceptMap]
    simp only [ih]
    rfl

private theorem rawPath_renumber (i : Int) : (f.renumber ρ).rawPath i = f.rawPath i := by
  unfold rawPath
  rw [exprs_length_renumber, rawPathFrom_renumber]

end Function

def Aliases.renumber (ρ : Equiv.Perm Int) (a : Aliases) : Aliases :=
  { a with function := a.function.renumber ρ }

namespace Aliases

variable (a : Aliases)

@[simp] theorem function_renumber : (a.renumber ρ).function = a.function.renumber ρ := rfl

private theorem expand_renumber (seen : List Value) (p : AccessPath) :
    (a.renumber ρ).expand seen p = a.expand seen p := by
  fun_induction expand a seen p with
  | case1 seen p hs => exact expand_of_mem (List.contains_iff_mem.mp hs)
  | case2 seen p hs hnone => exact expand_of_none hnone
  | case3 seen p hs src hsrc ih =>
    have hroot : p.root ∉ seen := fun hm => hs (List.contains_iff_mem.mpr hm)
    rw [expand_of_some (a := a.renumber ρ) hroot hsrc, ih]

private theorem pathOf_renumber (i : Int) : (a.renumber ρ).pathOf i = a.pathOf i := by
  have hcanonical : (a.renumber ρ).canonical = a.canonical := by
    funext p
    unfold canonical
    rw [expand_renumber]
  unfold pathOf
  rw [hcanonical, function_renumber, Function.rawPath_renumber]

private theorem originsFrom_renumber (length : Nat) (seen : List Int) (i : Option Int) :
    (a.renumber ρ).originsFrom length seen i = a.originsFrom length seen i := by
  induction length generalizing seen i with
  | zero => cases i <;> rfl
  | succ length ih =>
    cases i with
    | none => rfl
    | some i =>
      have hstep : ((a.renumber ρ).function.expr i >>= (a.renumber ρ).derivedFrom) =
          a.function.expr i >>= a.derivedFrom := by
        rw [function_renumber, Function.expr_renumber, bind_exceptMap]
        rfl
      unfold originsFrom
      rw [hstep]
      simp only [ih]

theorem origins_renumber (i : Int) : (a.renumber ρ).origins i = a.origins i := by
  unfold origins
  rw [originsFrom_renumber, function_renumber, Function.exprs_length_renumber]
  rfl

theorem originList_renumber (i : Int) : (a.renumber ρ).originList i = a.originList i := by
  unfold originList
  rw [origins_renumber]

private theorem assign_renumber (name : String) (value : Int) :
    (a.renumber ρ).assign name value = (a.assign name value).map (renumber ρ) := by
  unfold assign
  extract_lets b' b
  have hb : b' = b.renumber ρ := by
    unfold b b'
    rw [apply_ite (renumber ρ)]
    rfl
  have hpath : b'.function.rawPath value = b.function.rawPath value := by
    rw [hb]
    exact b.function.rawPath_renumber value
  rw [hpath, exceptMap_bind]
  refine bind_congr fun z => ?_
  rw [hb]
  cases z with
  | none => rfl
  | some src =>
    dsimp only
    rw [exceptMap_ite]
    rfl

private theorem stmt_renumber (s : Stmt) : (a.renumber ρ).stmt s = (a.stmt s).map (renumber ρ) := by
  unfold stmt
  split
  · rename_i t _ _
    have htarget : (a.renumber ρ).function.targetExpr t =
        (a.function.targetExpr t).map (Expr.renumber ρ) := by
      cases t with
      | expr i => exact a.function.expr_renumber i
      | other v => rfl
    rw [htarget, bind_exceptMap, exceptMap_bind]
    refine bind_congr fun e => ?_
    rw [e.kind_renumber, e.localName_renumber]
    split
    · rename_i name _ _
      rw [exceptMap_ite, assign_renumber]
      rfl
    · rfl
  · rfl

private theorem block_renumber (b : Int) :
    (a.renumber ρ).block b = (a.block b).map (renumber ρ) := by
  unfold block
  rw [show (a.renumber ρ).function.block b = a.function.block b from rfl, exceptMap_bind]
  exact bind_congr fun k => foldlM_exceptMap stmt_renumber k.stmts a

private theorem of_renumber (f : Function) :
    Aliases.of (f.renumber ρ) = (Aliases.of f).map (renumber ρ) := by
  unfold Aliases.of
  rw [show (f.renumber ρ).graph = f.graph from rfl, exceptMap_bind]
  exact bind_congr fun order => foldlM_exceptMap block_renumber order ⟨f, [], []⟩

end Aliases

def Facts.renumber (ρ : Equiv.Perm Int) (p' : Program) (f : Facts) : Facts :=
  ⟨p', f.function.renumber ρ, f.aliases.renumber ρ,
    f.located.map fun l => (l.1, l.2.renumber ρ)⟩

namespace Facts

section Build

variable (fn : Function)

private theorem stmtExprs_renumber (s : Stmt) :
    stmtExprs (fn.renumber ρ) s = (stmtExprs fn s).map (List.map (Expr.renumber ρ)) := by
  have hrest : ∀ target : List Expr,
      (do return target.map (Expr.renumber ρ) ++ (← (fn.renumber ρ).walk s.value)) =
        (do return target ++ (← fn.walk s.value) : Except Fault (List Expr)).map
          (List.map (Expr.renumber ρ)) := by
    intro target
    rw [fn.walk_renumber, bind_exceptMap, exceptMap_bind]
    refine bind_congr fun es => ?_
    rw [← List.map_append]
    rfl
  unfold stmtExprs
  cases s.target with
  | none => exact hrest []
  | some t =>
    have htarget : (fn.renumber ρ).walkTarget t =
        (fn.walkTarget t).map (List.map (Expr.renumber ρ)) := by
      cases t with
      | expr i => exact fn.walk_renumber i
      | other v => rfl
    dsimp only
    rw [htarget, bind_exceptMap, exceptMap_bind]
    exact bind_congr hrest

private theorem locate_renumber (found : List (Int × Int)) (root : Int × Stmt) :
    locate (fn.renumber ρ) found root = locate fn found root := by
  unfold locate
  rw [stmtExprs_renumber, bind_exceptMap]
  refine bind_congr fun es => ?_
  rw [List.foldl_map]
  rfl

private theorem exprBlocks_renumber : exprBlocks (fn.renumber ρ) = exprBlocks fn := by
  have hstep : locate (fn.renumber ρ) = locate fn := by
    funext found root
    exact locate_renumber fn found root
  unfold exprBlocks
  rw [hstep]
  rfl

/-- The facts are found in the same way, whatever the types of the expressions are. -/
theorem build_renumber (p p' : Program) :
    build p' (fn.renumber ρ) = (build p fn).map (renumber ρ p') := by
  have hlocated : ∀ blocks : List (Int × Int),
      (blocks.mapM fun x : Int × Int => do return (x.2, ← (fn.renumber ρ).expr x.1)) =
        (blocks.mapM fun x : Int × Int => do return (x.2, ← fn.expr x.1)).map
          (List.map fun l : Int × Expr => (l.1, l.2.renumber ρ)) := by
    intro blocks
    rw [← mapM_exceptMap]
    refine congrArg (fun step => blocks.mapM step) (funext fun x => ?_)
    rw [fn.expr_renumber, bind_exceptMap, exceptMap_bind]
    rfl
  unfold build
  rw [fn.validate_renumber, exprBlocks_renumber, exceptMap_bind]
  refine bind_congr fun _ => ?_
  rw [exceptMap_bind]
  refine bind_congr fun blocks => ?_
  rw [hlocated, bind_exceptMap, exceptMap_bind]
  refine bind_congr fun located => ?_
  rw [Aliases.of_renumber, bind_exceptMap, exceptMap_bind]
  rfl

end Build

variable {p' : Program} (f : Facts)

@[simp] theorem aliases_renumber : (f.renumber ρ p').aliases = f.aliases.renumber ρ := rfl

theorem pathOf_renumber (i : Option Int) : (f.renumber ρ p').pathOf i = f.pathOf i := by
  cases i with
  | none => rfl
  | some i => exact f.aliases.pathOf_renumber i

theorem targetPath_renumber (t : Target) : (f.renumber ρ p').targetPath t = f.targetPath t := by
  cases t with
  | expr i => exact f.aliases.pathOf_renumber i
  | other v => rfl

theorem expr_renumber (i : Int) :
    (f.renumber ρ p').function.expr i = (f.function.expr i).map (Expr.renumber ρ) :=
  f.function.expr_renumber i

theorem isZero_renumber (i : Int) : (f.renumber ρ p').isZero i = f.isZero i := by
  unfold isZero
  rw [expr_renumber, bind_exceptMap]
  rfl

theorem typeOf_renumber (h : f.program.Renumbers ρ p') (i : Option Int) :
    (f.renumber ρ p').typeOf i = (f.typeOf i).map (Option.map (TypeDecl.renumber ρ)) := by
  cases i with
  | none => rfl
  | some i =>
    unfold typeOf
    dsimp only
    rw [expr_renumber, bind_exceptMap, exceptMap_bind]
    exact bind_congr fun e => h.type? e.type

end Facts

end AccountLint
