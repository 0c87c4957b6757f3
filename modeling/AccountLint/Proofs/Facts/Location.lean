import AccountLint.Facts
import AccountLint.Proofs.Order
import AccountLint.Proofs.Program.Valid

/-! Where expressions are evaluated. The located expressions of a function are those in the trees of
its statements, each in the lowest block with such a statement. -/
namespace AccountLint

/-- The roots of the trees of a statement: its target, then its value. -/
def Stmt.treeRoots (s : Stmt) : List Int :=
  (match s.target with
    | some (.expr t) => [t]
    | _ => []) ++ [s.value]

namespace Function

/-- An expression is in the tree at a position. -/
inductive InTree (f : Function) : Int → Int → Prop where
  | self (i : Int) : InTree f i i
  | child {r c i : Int} {e : Expr} (he : f.expr r = .ok e) (hc : c ∈ e.children)
      (hi : InTree f c i) : InTree f r i

def StmtEvaluates (f : Function) (s : Stmt) (i : Int) : Prop := ∃ r ∈ s.treeRoots, f.InTree r i

/-- A block evaluates the expressions in the trees of its statements. -/
def Evaluates (f : Function) (b i : Int) : Prop := ∃ s, (b, s) ∈ f.roots ∧ f.StmtEvaluates s i

/-- The lowest block that evaluates an expression. -/
def FirstEvaluates (f : Function) (b i : Int) : Prop :=
  f.Evaluates b i ∧ ∀ c, f.Evaluates c i → b ≤ c

namespace Valid

variable {f : Function}

theorem walkFrom_yields {may : Fault → Prop} (hf : f.Valid) (depth : Nat) {i : Int}
    (hi : f.HasExpr i) : Yields may (fun es => ∀ e ∈ es, e ∈ f.exprs) (f.walkFrom depth i) := by
  induction depth generalizing i with
  | zero =>
    intro e he
    cases he
  | succ depth ih =>
    obtain ⟨e, he, _⟩ := hf.expr_ok hi
    have hmem := mem_exprs_of_expr he
    unfold walkFrom
    rw [he]
    refine (Yields.mapM fun c hc => ih (hf.child_lt hmem hc).1).bind fun below hbelow => ?_
    intro d hd
    rcases List.mem_cons.mp hd with rfl | hd
    · exact hmem
    · obtain ⟨es, hes, hd⟩ := List.mem_flatten.mp hd
      exact hbelow es hes d hd

/-- A walk that is deep enough finds the expressions in the tree. Children come before their
parents, so that the depth decreases with the position. -/
theorem mem_walkFrom_iff (hf : f.Valid) {depth : Nat} {i : Int} {es : List Expr}
    (hi : f.HasExpr i) (hlt : i < depth) (h : f.walkFrom depth i = .ok es) {d : Expr} :
    d ∈ es ↔ d ∈ f.exprs ∧ f.InTree i d.id := by
  induction depth generalizing i es with
  | zero =>
    have h0 := hi.1
    omega
  | succ depth ih =>
    obtain ⟨e, he, h⟩ := bind_eq_ok.mp h
    obtain ⟨below, hb, h⟩ := bind_eq_ok.mp h
    obtain rfl := pure_eq_ok.mp h
    have hmem := mem_exprs_of_expr he
    have hid : e.id = i := hf.id_of_expr hi he
    have hforall := mapM_eq_ok.mp hb
    rw [List.mem_cons, List.mem_flatten]
    constructor
    · intro h
      rcases h with rfl | ⟨es, hes, hd⟩
      · exact ⟨hmem, hid ▸ .self _⟩
      · obtain ⟨c, hc, hw⟩ := exists_of_forall₂_right hforall hes
        obtain ⟨hci, hcl⟩ := hf.child_lt hmem hc
        obtain ⟨hin, ht⟩ := (ih hci (by omega) hw).mp hd
        exact ⟨hin, .child he hc ht⟩
    · intro h
      obtain ⟨hin, ht⟩ := h
      cases ht with
      | self =>
        have hd := (hf.expr_id hin).2
        rw [he] at hd
        exact Or.inl (Except.ok.inj hd).symm
      | child he' hc ht =>
        rw [he] at he'
        obtain rfl := Except.ok.inj he'
        obtain ⟨es, hes, hw⟩ := exists_of_forall₂_left hforall hc
        obtain ⟨hci, hcl⟩ := hf.child_lt hmem hc
        exact Or.inr ⟨es, hes, (ih hci (by omega) hw).mpr ⟨hin, ht⟩⟩

theorem mem_walk_iff (hf : f.Valid) {i : Int} {es : List Expr} (hi : f.HasExpr i)
    (h : f.walk i = .ok es) {d : Expr} : d ∈ es ↔ d ∈ f.exprs ∧ f.InTree i d.id := by
  have hlt := hi.2
  exact hf.mem_walkFrom_iff hi (by omega) h

private theorem hasExpr_of_inTree (hf : f.Valid) {r i : Int} (hr : f.HasExpr r) (h : f.InTree r i) :
    f.HasExpr i := by
  induction h with
  | self => exact hr
  | child he hc _ ih => exact ih (hf.child_lt (mem_exprs_of_expr he) hc).1

end Valid

theorem mem_roots_iff {f : Function} {b : Int} {s : Stmt} :
    (b, s) ∈ f.roots ↔ ∃ k ∈ f.blocks, k.id = b ∧ s ∈ k.stmts := by
  unfold roots
  rw [List.mem_flatMap]
  constructor
  · intro h
    obtain ⟨k, hk, hs⟩ := h
    obtain ⟨s', hs', heq⟩ := List.mem_map.mp hs
    obtain ⟨rfl, rfl⟩ := Prod.mk.inj heq
    exact ⟨k, hk, rfl, hs'⟩
  · intro h
    obtain ⟨k, hk, rfl, hs⟩ := h
    exact ⟨k, hk, List.mem_map.mpr ⟨s, hs, rfl⟩⟩

theorem Valid.hasExpr_of_treeRoots {f : Function} (hf : f.Valid) {b : Int} {s : Stmt}
    (hs : (b, s) ∈ f.roots) {r : Int} (hr : r ∈ s.treeRoots) : f.HasExpr r := by
  obtain ⟨k, hk, _, hs⟩ := mem_roots_iff.mp hs
  unfold Stmt.treeRoots at hr
  rcases List.mem_append.mp hr with hr | hr
  · split at hr
    · rename_i t ht
      obtain rfl := List.mem_singleton.mp hr
      exact hf.target k hk s hs r ht
    · cases hr
  · obtain rfl := List.mem_singleton.mp hr
    exact hf.value k hk s hs

theorem Valid.hasExpr_of_evaluates {f : Function} (hf : f.Valid) {b i : Int}
    (h : f.Evaluates b i) : f.HasExpr i := by
  obtain ⟨s, hs, r, hr, ht⟩ := h
  exact hf.hasExpr_of_inTree (hf.hasExpr_of_treeRoots hs hr) ht

/-- The blocks of statements do not decrease. -/
theorem Valid.roots_sorted {f : Function} (hf : f.Valid) :
    f.roots.Pairwise fun a b => a.1 ≤ b.1 := by
  unfold roots
  rw [List.pairwise_flatMap]
  constructor
  · intro b _
    rw [List.pairwise_map]
    exact List.pairwise_of_forall fun _ _ => Int.le_refl _
  · rw [List.pairwise_iff_getElem]
    intro i j hi hj hij x hx y hy
    obtain ⟨_, _, rfl⟩ := List.mem_map.mp hx
    obtain ⟨_, _, rfl⟩ := List.mem_map.mp hy
    have h1 := hf.blockId (List.getElem?_eq_getElem hi)
    have h2 := hf.blockId (List.getElem?_eq_getElem hj)
    simp only
    omega

end Function

namespace Facts

/-- The blocks of the expressions that some statements evaluate: each expression once, with the
lowest block. -/
structure LocatedIn (f : Function) (roots : List (Int × Stmt)) (found : List (Int × Int)) : Prop where
  nodup : (found.map Prod.fst).Nodup
  complete : ∀ root ∈ roots, ∀ i, f.StmtEvaluates root.2 i → i ∈ found.map Prod.fst
  evaluates : ∀ entry ∈ found, ∃ s, (entry.2, s) ∈ roots ∧ f.StmtEvaluates s entry.1
  least : ∀ entry ∈ found, ∀ root ∈ roots, f.StmtEvaluates root.2 entry.1 → entry.2 ≤ root.1

theorem stmtExprs_eq_ok {f : Function} {s : Stmt} {es : List Expr} (h : stmtExprs f s = .ok es) :
    ∃ target value, f.walk s.value = .ok value ∧ es = target ++ value ∧
      ((s.target = none ∧ target = []) ∨
        ∃ t, s.target = some (.expr t) ∧ f.walk t = .ok target) := by
  unfold stmtExprs at h
  match hst : s.target with
  | none =>
    rw [hst] at h
    obtain ⟨target, ht, h⟩ := bind_eq_ok.mp h
    obtain ⟨value, hv, h⟩ := bind_eq_ok.mp h
    exact ⟨target, value, hv, (pure_eq_ok.mp h).symm, Or.inl ⟨rfl, (pure_eq_ok.mp ht).symm⟩⟩
  | some (.other v) =>
    rw [hst] at h
    cases h
  | some (.expr t) =>
    rw [hst] at h
    obtain ⟨target, ht, h⟩ := bind_eq_ok.mp h
    obtain ⟨value, hv, h⟩ := bind_eq_ok.mp h
    exact ⟨target, value, hv, (pure_eq_ok.mp h).symm, Or.inr ⟨t, rfl, ht⟩⟩

private theorem mem_stmtExprs_iff {f : Function} (hf : f.Valid) {b : Int} {s : Stmt}
    (hs : (b, s) ∈ f.roots) {es : List Expr} (h : stmtExprs f s = .ok es) {d : Expr} :
    d ∈ es ↔ d ∈ f.exprs ∧ f.StmtEvaluates s d.id := by
  have hroot : ∀ r ∈ s.treeRoots, f.HasExpr r := fun r hr => hf.hasExpr_of_treeRoots hs hr
  obtain ⟨target, value, hv, rfl, ⟨hst, rfl⟩ | ⟨t, hst, ht⟩⟩ := stmtExprs_eq_ok h
  · have hr : s.treeRoots = [s.value] := by simp [Stmt.treeRoots, hst]
    rw [List.nil_append, hf.mem_walk_iff (hroot _ (by simp [hr])) hv]
    unfold Function.StmtEvaluates
    simp [hr]
  · have hr : s.treeRoots = [t, s.value] := by simp [Stmt.treeRoots, hst]
    rw [List.mem_append, hf.mem_walk_iff (hroot _ (by simp [hr])) ht,
      hf.mem_walk_iff (hroot _ (by simp [hr])) hv]
    unfold Function.StmtEvaluates
    simp [hr, and_or_left]

def addUnlocated (b : Int) (found : List (Int × Int)) (es : List Expr) : List (Int × Int) :=
  es.foldl (fun found e =>
    if (found.lookup e.id).isSome then found else found ++ [(e.id, b)]) found

private theorem addUnlocated_spec (b : Int) (found : List (Int × Int)) (es : List Expr)
    (hd : (found.map Prod.fst).Nodup) :
    ((addUnlocated b found es).map Prod.fst).Nodup ∧
      ∀ entry, entry ∈ addUnlocated b found es ↔ entry ∈ found ∨
        (entry.2 = b ∧ entry.1 ∉ found.map Prod.fst ∧ ∃ e ∈ es, e.id = entry.1) := by
  induction es generalizing found with
  | nil => exact ⟨hd, fun entry => by simp [addUnlocated]⟩
  | cons e es ih =>
    by_cases hl : e.id ∈ found.map Prod.fst
    · have hstep : addUnlocated b found (e :: es) = addUnlocated b found es := by
        unfold addUnlocated
        rw [List.foldl_cons, if_pos (lookup_isSome_iff.mpr hl)]
      obtain ⟨hn, hm⟩ := ih found hd
      rw [hstep]
      refine ⟨hn, ?_⟩
      intro entry
      rw [hm]
      grind
    · have hstep : addUnlocated b found (e :: es) = addUnlocated b (found ++ [(e.id, b)]) es := by
        unfold addUnlocated
        rw [List.foldl_cons, if_neg fun h => hl (lookup_isSome_iff.mp h)]
      have hd' : ((found ++ [(e.id, b)]).map Prod.fst).Nodup := by
        rw [List.map_append, List.nodup_append']
        refine ⟨hd, List.nodup_singleton _, ?_⟩
        intro x hx hxe
        obtain rfl := List.mem_singleton.mp hxe
        exact hl hx
      obtain ⟨hn, hm⟩ := ih _ hd'
      rw [hstep]
      refine ⟨hn, ?_⟩
      intro entry
      rw [hm]
      grind

/-- One more statement, of a block that is not below those before, keeps the blocks lowest. -/
theorem LocatedIn.step {f : Function} (hf : f.Valid) {before : List (Int × Stmt)}
    {found found' : List (Int × Int)} {root : Int × Stmt} (h : LocatedIn f before found)
    (hm : root ∈ f.roots) (hle : ∀ r ∈ before, r.1 ≤ root.1) (hl : locate f found root = .ok found') :
    LocatedIn f (before ++ [root]) found' := by
  obtain ⟨b, s⟩ := root
  obtain ⟨es, hes, hl⟩ := bind_eq_ok.mp hl
  have heq : found' = addUnlocated b found es := (pure_eq_ok.mp hl).symm
  have hmem : ∀ i, (∃ e ∈ es, e.id = i) ↔ f.StmtEvaluates s i := by
    intro i
    constructor
    · intro h
      obtain ⟨e, he, rfl⟩ := h
      exact ((mem_stmtExprs_iff hf hm hes).mp he).2
    · intro h
      obtain ⟨e, he, rfl⟩ := hf.expr_ok (hf.hasExpr_of_evaluates ⟨s, hm, h⟩)
      exact ⟨e, (mem_stmtExprs_iff hf hm hes).mpr ⟨Function.mem_exprs_of_expr he, h⟩, rfl⟩
  obtain ⟨hnodup, hadd⟩ := addUnlocated_spec b found es h.nodup
  rw [← heq] at hnodup hadd
  constructor
  · exact hnodup
  · intro root hroot i hi
    have hkey : i ∈ found.map Prod.fst ∨ f.StmtEvaluates s i := by
      rcases List.mem_append.mp hroot with hroot | hroot
      · exact Or.inl (h.complete root hroot i hi)
      · obtain rfl := List.mem_singleton.mp hroot
        exact Or.inr hi
    by_cases hold : i ∈ found.map Prod.fst
    · obtain ⟨entry, hentry, rfl⟩ := List.mem_map.mp hold
      exact List.mem_map.mpr ⟨entry, (hadd entry).mpr (Or.inl hentry), rfl⟩
    · have hnew := (hadd (i, b)).mpr (Or.inr ⟨rfl, hold, (hmem i).mpr (hkey.resolve_left hold)⟩)
      exact List.mem_map.mpr ⟨(i, b), hnew, rfl⟩
  · intro entry hentry
    rcases (hadd entry).mp hentry with hold | ⟨hb, _, he⟩
    · obtain ⟨t, ht, hev⟩ := h.evaluates entry hold
      exact ⟨t, List.mem_append_left _ ht, hev⟩
    · exact ⟨s, by rw [hb]; exact List.mem_append_right _ List.mem_cons_self, (hmem _).mp he⟩
  · intro entry hentry root hroot hev
    rcases (hadd entry).mp hentry with hold | ⟨hb, hnew, _⟩
    · rcases List.mem_append.mp hroot with hroot | hroot
      · exact h.least entry hold root hroot hev
      · obtain rfl := List.mem_singleton.mp hroot
        obtain ⟨t, ht, _⟩ := h.evaluates entry hold
        exact hle _ ht
    · rcases List.mem_append.mp hroot with hroot | hroot
      · exact absurd (h.complete root hroot _ hev) hnew
      · obtain rfl := List.mem_singleton.mp hroot
        exact Int.le_of_eq hb

private theorem LocatedIn.run {f : Function} (hf : f.Valid) {before rest : List (Int × Stmt)}
    {found found' : List (Int × Int)} (h : LocatedIn f before found)
    (hsplit : f.roots = before ++ rest) (hr : rest.foldlM (locate f) found = .ok found') :
    LocatedIn f f.roots found' := by
  induction rest generalizing before found with
  | nil =>
    obtain rfl := pure_eq_ok.mp hr
    rw [hsplit, List.append_nil]
    exact h
  | cons root rest ih =>
    rw [List.foldlM_cons] at hr
    obtain ⟨next, hl, hr⟩ := bind_eq_ok.mp hr
    have hsorted := hf.roots_sorted
    rw [hsplit, List.pairwise_append] at hsorted
    have hle : ∀ r ∈ before, r.1 ≤ root.1 := fun r hr => hsorted.2.2 r hr root List.mem_cons_self
    have hm : root ∈ f.roots := by
      rw [hsplit]
      exact List.mem_append_right _ List.mem_cons_self
    exact ih (h.step hf hm hle hl) (by rw [hsplit, List.append_assoc]; rfl) hr

theorem exprBlocks_spec {f : Function} (hf : f.Valid) {blocks : List (Int × Int)}
    (h : exprBlocks f = .ok blocks) :
    (blocks.map Prod.fst).Nodup ∧ ∀ i b, (i, b) ∈ blocks ↔ f.FirstEvaluates b i := by
  obtain ⟨found, hfound, h⟩ := bind_eq_ok.mp h
  obtain rfl := pure_eq_ok.mp h
  have hstart : LocatedIn f [] [] :=
    ⟨List.nodup_nil, fun _ hr => (by cases hr), fun _ he => (by cases he), fun _ he => (by cases he)⟩
  have hall := hstart.run hf rfl hfound
  have hperm := sortBy_perm (fun a b : Int × Int => decide (a.1 ≤ b.1)) found
  refine ⟨(hperm.map Prod.fst).nodup_iff.mpr hall.nodup, ?_⟩
  intro i b
  rw [mem_sortBy]
  constructor
  · intro hm
    obtain ⟨s, hs, hev⟩ := hall.evaluates _ hm
    refine ⟨⟨s, hs, hev⟩, ?_⟩
    intro c hc
    obtain ⟨t, ht, hev⟩ := hc
    exact hall.least _ hm (c, t) ht hev
  · intro hfirst
    obtain ⟨⟨s, hs, hev⟩, hleast⟩ := hfirst
    obtain ⟨entry, hentry, rfl⟩ := List.mem_map.mp (hall.complete (b, s) hs i hev)
    obtain ⟨t, ht, hev'⟩ := hall.evaluates entry hentry
    have h1 := hall.least entry hentry (b, s) hs hev
    have h2 := hleast entry.2 ⟨t, ht, hev'⟩
    have hb : entry.2 = b := by
      simp only at h1
      omega
    rw [← hb]
    exact hentry

/-- No expression is evaluated by two blocks if every one has a block of its own. -/
theorem evaluates_once_of_owner {f : Function} (hf : f.Valid) (owner : Int → Int)
    (h : ∀ r ∈ f.roots, ∃ es, stmtExprs f r.2 = .ok es ∧ ∀ e ∈ es, owner e.id = r.1) {a b i : Int}
    (ha : f.Evaluates a i) (hb : f.Evaluates b i) : a = b := by
  have hown : ∀ c, f.Evaluates c i → owner i = c := by
    intro c hc
    obtain ⟨e, he, hid⟩ := hf.expr_ok (hf.hasExpr_of_evaluates hc)
    obtain ⟨s, hs, hev⟩ := hc
    obtain ⟨es, hes, hall⟩ := h (c, s) hs
    rw [← hid] at hev ⊢
    exact hall e ((mem_stmtExprs_iff hf hs hes).mpr ⟨Function.mem_exprs_of_expr he, hev⟩)
  rw [← hown a ha, hown b hb]

/-- What the facts of a function are made of. -/
theorem build_eq_ok {p : Program} {f : Function} {facts : Facts} (h : build p f = .ok facts) :
    f.validate = .ok () ∧ ∃ blocks, exprBlocks f = .ok blocks ∧
      blocks.mapM (fun entry => do return (entry.2, ← f.expr entry.1)) = .ok facts.located ∧
      Aliases.of f = .ok facts.aliases ∧ facts.program = p ∧ facts.function = f := by
  obtain ⟨_, hv, h⟩ := bind_eq_ok.mp h
  obtain ⟨blocks, hb, h⟩ := bind_eq_ok.mp h
  obtain ⟨located, hl, h⟩ := bind_eq_ok.mp h
  obtain ⟨aliases, ha, h⟩ := bind_eq_ok.mp h
  obtain rfl := pure_eq_ok.mp h
  exact ⟨hv, blocks, hb, hl, ha, rfl, rfl⟩

/-- The located expressions are those with the ids that have a block, in the order of the ids. -/
theorem located_entries {p : Program} {f : Function} {facts : Facts} (h : build p f = .ok facts) :
    ∃ blocks, exprBlocks f = .ok blocks ∧
      List.Forall₂ (fun entry l => l = (entry.2, l.2) ∧ f.expr entry.1 = .ok l.2) blocks facts.located ∧
      blocks.map Prod.fst = facts.located.map fun l => l.2.id := by
  obtain ⟨hv, blocks, hb, hl, _⟩ := build_eq_ok h
  have hf := Function.Valid.of_validate hv
  obtain ⟨_, hmem⟩ := exprBlocks_spec hf hb
  have hall : List.Forall₂ (fun entry l => l = (entry.2, l.2) ∧ f.expr entry.1 = .ok l.2)
      blocks facts.located := by
    refine (mapM_eq_ok.mp hl).imp ?_
    intro entry l hstep
    obtain ⟨e, he, hstep⟩ := bind_eq_ok.mp hstep
    obtain rfl := pure_eq_ok.mp hstep
    exact ⟨rfl, he⟩
  refine ⟨blocks, hb, hall, map_eq_of_forall₂ hall ?_⟩
  intro entry hentry l hl
  have hev := ((hmem entry.1 entry.2).mp hentry).1
  exact (hf.id_of_expr (hf.hasExpr_of_evaluates hev) hl.2).symm

/-- The located expressions are those that are evaluated, each once and in the lowest block. -/
theorem located_spec {p : Program} {f : Function} {facts : Facts} (h : build p f = .ok facts) :
    facts.located.Nodup ∧
      ∀ b e, (b, e) ∈ facts.located ↔ e ∈ f.exprs ∧ f.FirstEvaluates b e.id := by
  have hf := Function.Valid.of_validate (build_eq_ok h).1
  obtain ⟨blocks, hb, hall, hkeys⟩ := located_entries h
  obtain ⟨hnodup, hmem⟩ := exprBlocks_spec hf hb
  constructor
  · rw [hkeys] at hnodup
    exact hnodup.of_map _
  · intro b e
    constructor
    · intro hm
      obtain ⟨entry, hentry, hb, he⟩ := exists_of_forall₂_right hall hm
      obtain ⟨rfl, _⟩ := Prod.mk.inj hb
      have hfirst := (hmem _ _).mp hentry
      have hid := hf.id_of_expr (hf.hasExpr_of_evaluates hfirst.1) he
      exact ⟨Function.mem_exprs_of_expr he, hid ▸ hfirst⟩
    · intro h
      obtain ⟨he, hfirst⟩ := h
      obtain ⟨l, hlm, hb, hexpr⟩ := exists_of_forall₂_left hall ((hmem _ _).mpr hfirst)
      rw [(hf.expr_id he).2] at hexpr
      rw [hb, ← Except.ok.inj hexpr] at hlm
      exact hlm

/-- The facts of a function, from an evaluation of their parts. -/
theorem build_of_parts {p : Program} {f : Function} {located : List (Int × Expr)}
    {sources : List (String × AccessPath)} {definitions : List (String × Int)}
    (hvalid : f.validate = .ok ())
    (hlocated : (exprBlocks f >>= List.mapM fun entry => do
      return (entry.2, ← f.expr entry.1)).toOption = some located)
    (haliases : (Aliases.of f).toOption.map (fun a => (a.function, a.sources, a.definitions)) =
      some (f, sources, definitions)) :
    build p f = .ok ⟨p, f, ⟨f, sources, definitions⟩, located⟩ := by
  obtain ⟨blocks, hblocks, hlocated⟩ := bind_eq_ok.mp (ok_of_toOption hlocated)
  obtain ⟨a, ha, heq⟩ := Option.map_eq_some_iff.mp haliases
  cases heq
  exact bind_eq_ok.mpr ⟨(), hvalid, bind_eq_ok.mpr ⟨blocks, hblocks,
    bind_eq_ok.mpr ⟨located, hlocated, bind_eq_ok.mpr ⟨a, ok_of_toOption ha, rfl⟩⟩⟩⟩

/-- The located expressions are in increasing order of their ids. -/
theorem located_sorted {p : Program} {f : Function} {facts : Facts} (h : build p f = .ok facts) :
    facts.located.Pairwise fun k l => k.2.id < l.2.id := by
  have hf := Function.Valid.of_validate (build_eq_ok h).1
  obtain ⟨blocks, hb, _, hkeys⟩ := located_entries h
  have hnodup := (exprBlocks_spec hf hb).1
  have hordered : Ordered fun a b : Int × Int => decide (a.1 ≤ b.1) := by
    constructor
    · intro a b
      simp only [decide_eq_true_eq]
      omega
    · intro a b c
      simp only [decide_eq_true_eq]
      omega
  have hle : (blocks.map Prod.fst).Pairwise (· ≤ ·) := by
    obtain ⟨found, _, hb⟩ := bind_eq_ok.mp hb
    obtain rfl := pure_eq_ok.mp hb
    rw [List.pairwise_map]
    exact (hordered.pairwise_sortBy found).imp of_decide_eq_true
  have hlt : (blocks.map Prod.fst).Pairwise (· < ·) := by
    refine (hle.and hnodup).imp ?_
    intro a b hab
    omega
  rw [hkeys, List.pairwise_map] at hlt
  exact hlt

end Facts
end AccountLint
