import Mathlib.Data.Int.LeastGreatest
import AccountLint.Proofs.Alias.FirstAssignment
import AccountLint.Proofs.Total.Facts

/-! The location of expressions is complete and exact. A walk over the tree of a statement ends, the
facts of a well-formed function are found just if its statements can be read, and the located
expressions are then those in the trees of the statements, each once and in the lowest block. -/
namespace AccountLint

namespace Function

variable {f : Function}

/-- A walk with a stack of positions that are yet to be visited. The expression at the top is
visited, and its children take its place. Nothing bounds the depth of the walk. -/
inductive Walks (f : Function) : List Int → List Expr → Prop where
  | done : Walks f [] []
  | visit {i : Int} {stack : List Int} {e : Expr} {es : List Expr} (he : f.expr i = .ok e)
      (h : Walks f (e.children ++ stack) es) : Walks f (i :: stack) (e :: es)

namespace Walks

variable {stack : List Int} {es es' : List Expr}

private theorem unique (h : f.Walks stack es) (h' : f.Walks stack es') : es = es' := by
  induction h generalizing es' with
  | done => cases h' with | done => rfl
  | visit he _ ih =>
    cases h' with
    | visit he' h' =>
      obtain rfl := Except.ok.inj (he.symm.trans he')
      rw [ih h']

/-- If each of some trees can be walked on top of any stack, so can all of them one after the other.
-/
theorem flatten {cs : List Int} {trees : List (List Expr)}
    (htrees : List.Forall₂ (fun c tree =>
      ∀ stack es, f.Walks stack es → f.Walks (c :: stack) (tree ++ es)) cs trees)
    (h : f.Walks stack es) : f.Walks (cs ++ stack) (trees.flatten ++ es) := by
  induction htrees with
  | nil => exact h
  | cons htree _ ih =>
    rw [List.flatten_cons, List.append_assoc]
    exact htree _ _ ih

end Walks

namespace Valid

/-- A walk that is deep enough is the one with a stack. Children come before their parents, so that
the depth decreases with the position. -/
theorem walks_of_walkFrom (hf : f.Valid) {depth : Nat} {i : Int} {tree : List Expr}
    (hi : f.HasExpr i) (hlt : i < depth) (h : f.walkFrom depth i = .ok tree) (stack : List Int)
    (es : List Expr) (hes : f.Walks stack es) :
    f.Walks (i :: stack) (tree ++ es) := by
  induction depth generalizing i tree stack es with
  | zero =>
    have h0 := hi.1
    omega
  | succ depth ih =>
    obtain ⟨e, he, h⟩ := bind_eq_ok.mp h
    obtain ⟨below, hbelow, h⟩ := bind_eq_ok.mp h
    obtain rfl := pure_eq_ok.mp h
    have hid : e.id = i := hf.id_of_expr hi he
    refine .visit he (Walks.flatten ?_ hes)
    refine (forall₂_with_mem (mapM_eq_ok.mp hbelow)).imp ?_
    rintro c tree ⟨hc, htree⟩
    obtain ⟨hci, hcl⟩ := hf.child_lt (mem_exprs_of_expr he) hc
    exact ih hci (by omega) htree

private theorem walks_iff (hf : f.Valid) {i : Int} (hi : f.HasExpr i) {es : List Expr} :
    f.Walks [i] es ↔ f.walk i = .ok es := by
  have hlt := hi.2
  have hwalks : ∀ es, f.walk i = .ok es → f.Walks [i] es := by
    intro es h
    have := hf.walks_of_walkFrom hi (by omega) h [] [] .done
    rwa [List.append_nil] at this
  constructor
  · intro h
    obtain ⟨es', hes', _⟩ := Yields.ok_iff.mp (hf.walkFrom_yields (f.exprs.length + 1) hi)
    rw [h.unique (hwalks es' hes')]
    exact hes'
  · exact hwalks es

/-- Some block is the lowest one that evaluates an expression. -/
theorem exists_firstEvaluates (hf : f.Valid) {b i : Int} (h : f.Evaluates b i) :
    ∃ c, f.FirstEvaluates c i := by
  refine Int.exists_least_of_bdd ⟨0, fun c hc => ?_⟩ ⟨b, h⟩
  obtain ⟨s, hs, _⟩ := hc
  obtain ⟨k, hk, rfl, _⟩ := mem_roots_iff.mp hs
  exact (hf.block_id hk).1.1

end Valid

private theorem mem_roots_iff_stmtAt {b : Int} {s : Stmt} :
    (b, s) ∈ f.roots ↔ ∃ i, f.StmtAt b i s := by
  rw [mem_roots_iff]
  constructor
  · rintro ⟨k, hk, hid, hs⟩
    obtain ⟨i, hi⟩ := List.mem_iff_getElem?.mp hs
    exact ⟨i, k, hk, hid, hi⟩
  · rintro ⟨i, k, hk, hid, hi⟩
    exact ⟨k, hk, hid, List.mem_of_getElem? hi⟩

/-- What it takes to read a statement: it assigns to nothing or to an expression, and what it
assigns can be found out. -/
structure Readable (f : Function) (s : Stmt) : Prop where
  target : ∀ v, s.target ≠ some (.other v)
  traceable : f.Traceable s

end Function

private theorem Aliases.traceable_of_eq_ok {f : Function} {a : Aliases} (hf : f.Valid)
    (h : Aliases.of f = .ok a) {b : Int} {s : Stmt} (hs : (b, s) ∈ f.roots) : f.Traceable s := by
  obtain ⟨order, horder, hall⟩ := hf.exists_visitOrder
  obtain ⟨i, hi⟩ := Function.mem_roots_iff_stmtAt.mp hs
  exact (Recorded.of_eq_ok horder h).traceable s ((hf.mem_stmts hall).mpr ⟨b, i, hi⟩)

namespace Facts

variable {p : Program} {f : Function}

/-- If expressions are located, all targets are expressions. -/
theorem target_of_exprBlocks {blocks : List (Int × Int)} (h : exprBlocks f = .ok blocks) :
    ∀ root ∈ f.roots, ∀ v, root.2.target ≠ some (.other v) := by
  obtain ⟨found, hfound, _⟩ := bind_eq_ok.mp h
  refine foldlM_invariant (fun past _ => ∀ root ∈ past, ∀ v, root.2.target ≠ some (.other v))
    (fun _ hroot => (by cases hroot)) ?_ hfound
  intro past x rest b c _ hpast hstep root hroot v hv
  rcases List.mem_append.mp hroot with hroot | hroot
  · exact hpast root hroot v hv
  · obtain rfl := List.mem_singleton.mp hroot
    obtain ⟨es, hes, _⟩ := bind_eq_ok.mp hstep
    obtain ⟨_, _, _, _, ⟨hst, _⟩ | ⟨t, hst, _⟩⟩ := stmtExprs_eq_ok hes
    · rw [hst] at hv
      cases hv
    · rw [hst] at hv
      cases hv

/-- A well-formed function whose statements can be read has facts. -/
theorem build_ok (hv : f.validate = .ok ()) (hread : ∀ b s, (b, s) ∈ f.roots → f.Readable s) :
    ∃ facts, build p f = .ok facts := by
  have hf := Function.Valid.of_validate hv
  have htarget : ∀ root ∈ f.roots, ∀ t, root.2.target = some t → (∃ i, t = .expr i) ∨ False := by
    intro root hroot t ht
    cases t with
    | expr i => exact .inl ⟨i, rfl⟩
    | other v => exact absurd ht ((hread _ _ hroot).target v)
  obtain ⟨blocks, hblocks, hhas⟩ := Yields.ok_iff.mp (exprBlocks_yields hf htarget)
  obtain ⟨located, hlocated⟩ : ∃ located,
      blocks.mapM (fun entry => do return (entry.2, ← f.expr entry.1)) = .ok located := by
    refine exists_mapM_ok fun entry hentry => ?_
    obtain ⟨e, he, _⟩ := hf.expr_ok (hhas entry hentry)
    exact ⟨(entry.2, e), bind_eq_ok.mpr ⟨e, he, rfl⟩⟩
  obtain ⟨aliases, haliases⟩ := Aliases.of_ok hf fun b i s hs =>
    (hread b s (Function.mem_roots_iff_stmtAt.mpr ⟨i, hs⟩)).traceable
  exact ⟨_, bind_eq_ok.mpr ⟨(), hv, bind_eq_ok.mpr ⟨blocks, hblocks,
    bind_eq_ok.mpr ⟨located, hlocated, bind_eq_ok.mpr ⟨aliases, haliases, rfl⟩⟩⟩⟩⟩

private theorem readable_of_build {facts : Facts} (h : build p f = .ok facts) {b : Int} {s : Stmt}
    (hs : (b, s) ∈ f.roots) : f.Readable s := by
  obtain ⟨hv, blocks, hblocks, _, ha, _⟩ := build_eq_ok h
  exact ⟨target_of_exprBlocks hblocks _ hs, Aliases.traceable_of_eq_ok (.of_validate hv) ha hs⟩

/-- The location of the expressions of a function that is well formed is complete and exact. The
walks over the trees of its statements end. Its facts can be found just if all statements can be
read, which they can if the names are texts and the targets are expressions. The located expressions
are then those in the trees of the statements, in increasing order of their ids, each in the lowest
block that evaluates it. -/
theorem build_locates (hv : f.validate = .ok ()) :
    (∀ b s, (b, s) ∈ f.roots → ∀ r ∈ s.treeRoots, ∃ es, f.Walks [r] es ∧ f.walk r = .ok es ∧
      ∀ e, e ∈ es ↔ e ∈ f.exprs ∧ f.InTree r e.id) ∧
    ((∃ facts, build p f = .ok facts) ↔ ∀ b s, (b, s) ∈ f.roots → f.Readable s) ∧
    ((∀ e ∈ f.exprs, ∀ n, e.name = some n → ∃ text, n = .text text) →
      (∀ b s, (b, s) ∈ f.roots → ∀ v, s.target ≠ some (.other v)) → ∃ facts, build p f = .ok facts) ∧
    ∀ facts, build p f = .ok facts →
      facts.located.Pairwise (fun k l => k.2.id < l.2.id) ∧
      (∀ e ∈ f.exprs, ∀ b, f.Evaluates b e.id → ∃ c, (c, e) ∈ facts.located) ∧
      ∀ b e, (b, e) ∈ facts.located ↔ e ∈ f.exprs ∧ f.FirstEvaluates b e.id := by
  have hf := Function.Valid.of_validate hv
  refine ⟨fun b s hs r hr => ?_, ⟨?_, build_ok hv⟩, fun hnames htargets => ?_, fun facts h => ?_⟩
  · have hi := hf.hasExpr_of_treeRoots hs hr
    obtain ⟨es, hes, _⟩ := Yields.ok_iff.mp (hf.walkFrom_yields (f.exprs.length + 1) hi)
    exact ⟨es, (hf.walks_iff hi).mpr hes, hes, fun e => hf.mem_walk_iff hi hes⟩
  · rintro ⟨facts, h⟩ b s hs
    exact readable_of_build h hs
  · refine build_ok hv fun b s hs => ⟨htargets b s hs, ?_⟩
    obtain ⟨i, hi⟩ := Function.mem_roots_iff_stmtAt.mp hs
    refine hf.traceable hnames ?_ hi
    intro c j t v ht
    exact htargets c t (Function.mem_roots_iff_stmtAt.mpr ⟨j, ht⟩) v
  · obtain ⟨_, hmem⟩ := located_spec h
    refine ⟨located_sorted h, fun e he b hb => ?_, hmem⟩
    obtain ⟨c, hc⟩ := hf.exists_firstEvaluates hb
    exact ⟨c, (hmem c e).mpr ⟨he, hc⟩⟩

/-- A function that evaluates `x = a.owner`, then in a second block `x = a` and a call with the
operands `a.owner` and `x`. The expressions of `x`, `a` and `a.owner` are shared, and no statement
evaluates the last expression. -/
def sharing : Function :=
  { name := "share"
    exprs := [
      { id := 0, kind := .localVar, localName := "a" },
      { id := 1, kind := .field, name := some (.text "owner"), receiver := some 0 },
      { id := 2, kind := .localVar, localName := "x" },
      { id := 3, kind := .call, name := some (.text "check"), operands := [1, 2] },
      { id := 4, kind := .localVar, localName := "y" }]
    blocks := [
      { id := 0, stmts := [{ kind := .assign, target := some (.expr 2), value := 1 }]
        successors := [1] },
      { id := 1, stmts := [
          { kind := .assign, target := some (.expr 2), value := 0 }, { kind := .eval, value := 3 }] }] }

theorem build_locates_sharing :
    sharing.validate = .ok () ∧ ∃ facts, build {} sharing = .ok facts ∧
      (facts.located.map fun l => (l.1, l.2.id)) = [(0, 0), (0, 1), (0, 2), (1, 3)] ∧
      facts.located.Pairwise (fun k l => k.2.id < l.2.id) ∧
      (∀ e ∈ sharing.exprs, ∀ b, sharing.Evaluates b e.id → ∃ c, (c, e) ∈ facts.located) ∧
      ∀ b e, (b, e) ∈ facts.located ↔ e ∈ sharing.exprs ∧ sharing.FirstEvaluates b e.id := by
  have hv : sharing.validate = .ok () := rfl
  have hnames : ∀ e ∈ sharing.exprs, ∀ n, e.name = some n → ∃ text, n = .text text := by
    simp [sharing]
  have htargets : ∀ b s, (b, s) ∈ sharing.roots → ∀ v, s.target ≠ some (.other v) := by
    intro b s hs v
    have hall : ∀ root ∈ sharing.roots, root.2.target = none ∨ root.2.target = some (.expr 2) := by
      decide
    have hst : s.target = none ∨ s.target = some (.expr 2) := hall (b, s) hs
    rcases hst with h | h <;> simp [h]
  have hvalue : ((build {} sharing).toOption.map fun facts => facts.located.map fun l => (l.1, l.2.id)) =
      some [(0, 0), (0, 1), (0, 2), (1, 3)] := by decide +kernel
  obtain ⟨_, _, hbuild, hlocated⟩ := build_locates (p := {}) hv
  obtain ⟨facts, h⟩ := hbuild hnames htargets
  rw [h] at hvalue
  exact ⟨hv, facts, h, Option.some.inj hvalue, hlocated facts h⟩

/-- A function that assigns to a half, which is between two positions of expressions. -/
def halfTarget : Function :=
  { name := "half"
    exprs := [{ id := 0, kind := .literal, value := .int 5 }]
    blocks := [{ id := 0, stmts := [
      { kind := .assign, target := some (.other (.float (.ofRatio false 1 2))), value := 0 }] }] }

/-- A target that is no expression passes the checks, and then no expression is located. -/
theorem build_fails_halfTarget :
    halfTarget.validate = .ok () ∧ halfTarget.Evaluates 0 0 ∧ ∀ p, build p halfTarget = .error .shape :=
  ⟨rfl, ⟨_, List.mem_cons_self, 0, by decide +kernel, .self 0⟩, fun _ => rfl⟩

end Facts
end AccountLint
