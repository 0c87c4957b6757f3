import AccountLint.Proofs.Facts.Location
import AccountLint.Proofs.Total.Aliases
import AccountLint.Sink.Exemption

/-! The facts of a well-formed function can be found, and so can the types, places and origins of
its expressions. -/
namespace AccountLint

variable {may : Fault → Prop} {p : Program} {f : Function}

structure Facts.Fits (may : Fault → Prop) (facts : Facts) : Prop where
  valid : facts.function.Valid
  types : facts.program.TypesInRange
  names : ∀ t ∈ facts.program.types, t.FitNames may
  function : facts.function.Fits may facts.program
  aliases : facts.aliases.Fits may facts.function
  located : ∀ l ∈ facts.located, l.2 ∈ facts.function.exprs

namespace Facts

private theorem stmtExprs_yields (hf : f.Valid) {b : Int} {s : Stmt} (hs : (b, s) ∈ f.roots)
    (htarget : ∀ t, s.target = some t → (∃ i, t = .expr i) ∨ may .shape) :
    Yields may (fun es => ∀ e ∈ es, e ∈ f.exprs) (stmtExprs f s) := by
  obtain ⟨k, hk, _, hsk⟩ := Function.mem_roots_iff.mp hs
  have hvalue : Yields may (fun es => ∀ e ∈ es, e ∈ f.exprs) (f.walk s.value) :=
    hf.walkFrom_yields _ (hf.value k hk s hsk)
  unfold stmtExprs
  match hst : s.target with
  | none =>
    have hnone : Yields may (· = []) (pure [] : Except Fault (List Expr)) := rfl
    refine hnone.bind fun es hes => ?_
    rw [hes]
    exact hvalue.bind fun es hes => hes
  | some (.expr i) =>
    have hwalk : Yields may (fun es => ∀ e ∈ es, e ∈ f.exprs) (f.walkTarget (.expr i)) :=
      hf.walkFrom_yields _ (hf.target k hk s hsk i hst)
    refine hwalk.bind fun es hes => hvalue.bind fun es' hes' => ?_
    intro e he
    rcases List.mem_append.mp he with he | he
    · exact hes e he
    · exact hes' e he
  | some (.other v) =>
    rcases htarget _ hst with ⟨i, hi⟩ | hshape
    · cases hi
    · exact hshape

theorem exprBlocks_yields (hf : f.Valid)
    (htarget : ∀ root ∈ f.roots, ∀ t, root.2.target = some t → (∃ i, t = .expr i) ∨ may .shape) :
    Yields may (fun found => ∀ entry ∈ found, f.HasExpr entry.1) (exprBlocks f) := by
  have hsafe : Safe may (exprBlocks f) := by
    unfold exprBlocks
    have hrun : Safe may (f.roots.foldlM (locate f) []) := by
      refine Yields.foldlM trivial fun found _ root hroot => ?_
      exact (stmtExprs_yields hf hroot (htarget root hroot)).bind fun _ _ => trivial
    exact hrun.bind fun _ _ => trivial
  refine hsafe.with_eq.mono fun blocks hblocks entry hentry => ?_
  have hfirst := ((exprBlocks_spec hf hblocks.2).2 entry.1 entry.2).mp hentry
  exact hf.hasExpr_of_evaluates hfirst.1

/-- A function that is accepted has facts. -/
theorem build_yields (htypes : p.TypesInRange) (hnames : ∀ t ∈ p.types, t.FitNames may)
    (hfit : f.Fits may p) (hv : f.validate = .ok ()) :
    Yields may (fun facts => facts.Fits may ∧ facts.program = p ∧ facts.function = f)
      (build p f) := by
  have hf := Function.Valid.of_validate hv
  unfold build
  rw [hv]
  have htarget : ∀ root ∈ f.roots, ∀ t, root.2.target = some t → (∃ i, t = .expr i) ∨ may .shape := by
    intro root hroot
    obtain ⟨k, hk, _, hs⟩ := Function.mem_roots_iff.mp hroot
    exact hfit.target k hk root.2 hs
  refine (exprBlocks_yields hf htarget).bind fun blocks hblocks => ?_
  have hlocated : Yields may (fun ls => ∀ l ∈ ls, l.2 ∈ f.exprs)
      (blocks.mapM fun entry => do return (entry.2, ← f.expr entry.1)) := by
    refine Yields.mapM fun entry he => ?_
    exact (hf.expr_yields (hblocks entry he)).bind fun e he => he
  refine hlocated.bind fun located hl => ?_
  refine (Aliases.of_yields hfit hf).bind fun aliases ha => ?_
  exact ⟨⟨hf, htypes, hnames, hfit, ha, hl⟩, rfl, rfl⟩

namespace Fits

variable {facts : Facts}

theorem expr (h : facts.Fits may) {i : Int} (hi : facts.function.HasExpr i) :
    Yields may (· ∈ facts.function.exprs) (facts.function.expr i) := h.valid.expr_yields hi

/-- An expression that is not there, or one of the function. -/
theorem typeOf (h : facts.Fits may) {i : Option Int}
    (hi : ∀ j, i = some j → facts.function.HasExpr j) :
    Yields may (fun z => ∀ t, z = some t → t ∈ facts.program.types) (facts.typeOf i) := by
  cases i with
  | none => exact fun t ht => (by cases ht)
  | some i => exact (h.expr (hi i rfl)).bind fun e he => (h.function.type e he).type?

theorem pathOf (h : facts.Fits may) {i : Option Int}
    (hi : ∀ j, i = some j → facts.function.HasExpr j) :
    Yields may (FitPlace may) (facts.pathOf i) := by
  cases i with
  | none => exact fitPlace_none
  | some i => exact h.aliases.pathOf h.function h.valid (hi i rfl)

theorem pathOf_some (h : facts.Fits may) {i : Int} (hi : facts.function.HasExpr i) :
    Yields may (FitPlace may) (facts.pathOf (some i)) := h.aliases.pathOf h.function h.valid hi

theorem isZero (h : facts.Fits may) {i : Int} (hi : facts.function.HasExpr i) :
    Safe may (facts.isZero i) := (h.expr hi).bind fun _ _ => trivial

theorem hasFact (h : facts.Fits may) {t : Option TypeDecl}
    (ht : ∀ u, t = some u → u ∈ facts.program.types) (fact : String) : Safe may (hasFact t fact) := by
  cases t with
  | none => trivial
  | some t => exact (h.names t (ht t rfl)).hasFact fact

theorem firstOrigin {β : Type} (h : facts.Fits may) {step : Int → Except Fault (Option β)} {i : Int}
    (hi : facts.function.HasExpr i)
    (hstep : ∀ j, facts.function.HasExpr j → Safe may (step j)) :
    Safe may (facts.firstOrigin step i) := by
  obtain ⟨hall, hfault⟩ := h.aliases.origins h.function h.valid hi
  unfold Facts.firstOrigin
  generalize facts.aliases.origins i = found at hall hfault
  obtain ⟨is, fault⟩ := found
  have hfirst : Safe may (firstM step is) := Yields.firstM_safe fun j hj => hstep j (hall j hj)
  refine hfirst.bind fun z _ => ?_
  cases z with
  | some b => trivial
  | none =>
    cases fault with
    | none => trivial
    | some e => exact hfault e rfl

private theorem establishes (h : facts.Fits may) (fact : String) {i : Int}
    (hi : facts.function.HasExpr i) :
    Safe may (facts.establishes fact i) := by
  unfold Facts.establishes
  refine (h.expr hi).bind fun e he => ?_
  have hself : Safe may (do AccountLint.hasFact (← facts.typeOf (some i)) fact) :=
    (h.typeOf fun j hj => (by rw [← Option.some.inj hj]; exact hi)).bind fun t ht => h.hasFact ht fact
  split
  · refine (h.typeOf fun j hj => h.valid.receiver_lt he hj).bind fun t ht => ?_
    refine (h.hasFact ht fact).bind fun b _ => ?_
    split
    · trivial
    · exact hself
  · exact hself

theorem derivesFrom (h : facts.Fits may) (fact : String) {i : Int} (hi : facts.function.HasExpr i) :
    Safe may (facts.derivesFrom fact i) := by
  refine Yields.bind (h.firstOrigin hi fun j hj => ?_) fun _ _ => trivial
  exact (h.establishes fact hj).bind fun _ _ => trivial

end Fits
end Facts
end AccountLint
