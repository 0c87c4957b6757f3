import AccountLint.Alias.Aliases
import AccountLint.Proofs.Flow.Order
import AccountLint.Proofs.Program.Valid
import AccountLint.Proofs.Total.Types

/-! Aliases of a well-formed function: the places and origins of its expressions can all be found,
by walks that stay inside the function. -/
namespace AccountLint

variable {may : Fault → Prop} {p : Program} {f : Function}

/-- What is asked of a function beyond that it is well formed: its names are fit, its types are in
the table, its constructors have an operand for each field, and it assigns to expressions only. -/
structure Function.Fits (may : Fault → Prop) (p : Program) (f : Function) : Prop where
  name : ∀ e ∈ f.exprs, FitName may e.name
  type : ∀ e ∈ f.exprs, p.InTable e.type
  paramName : ∀ q ∈ f.params, Fit may q.name
  paramType : ∀ q ∈ f.params, p.InTable q.type
  construct : ∀ e ∈ f.exprs, e.kind = .construct →
    e.fieldNames.length ≤ e.operands.length ∨ may .bounds
  target : ∀ b ∈ f.blocks, ∀ s ∈ b.stmts, ∀ t, s.target = some t → (∃ i, t = .expr i) ∨ may .shape

theorem Function.Valid.receiver_lt (hf : f.Valid) {e : Expr} (he : e ∈ f.exprs) {r : Int}
    (hr : e.receiver = some r) : f.HasExpr r := by
  refine (hf.child_lt he ?_).1
  simp [Expr.children, hr]

theorem Function.Valid.operand_lt (hf : f.Valid) {e : Expr} (he : e ∈ f.exprs) {i : Int}
    (hi : i ∈ e.operands) : f.HasExpr i :=
  (hf.child_lt he (List.mem_append_right _ hi)).1

theorem Function.Valid.expr_yields (hf : f.Valid) {i : Int} (hi : f.HasExpr i) :
    Yields may (· ∈ f.exprs) (f.expr i) := by
  obtain ⟨e, he, _⟩ := hf.expr_ok hi
  rw [he]
  exact mem_exprs_of_expr he

def FitPlace (may : Fault → Prop) (z : Option AccessPath) : Prop := ∀ q, z = some q → q.FitNames may

theorem fitPlace_none : FitPlace may none := fun _ h => (by cases h)

private theorem fitPlace_some {q : AccessPath} (h : q.FitNames may) : FitPlace may (some q) := by
  intro r hr
  rw [← Option.some.inj hr]
  exact h

private theorem FitPlace.extend {z : Option AccessPath} (h : FitPlace may z) {step : Value}
    (hs : Fit may step) : FitPlace may (z.map (·.extend [step])) := by
  cases z with
  | none => exact fitPlace_none
  | some q =>
    refine fitPlace_some ((h q rfl).extend fun s hmem => ?_)
    rw [List.mem_singleton.mp hmem]
    exact hs

/-- Where names are fit, the place of an expression can be found, and its names are fit. -/
theorem Function.Valid.rawPathFrom_yields (hf : f.Valid) (hname : ∀ e ∈ f.exprs, FitName may e.name)
    (depth : Nat) {i : Int} (hi : f.HasExpr i) :
    Yields may (FitPlace may) (f.rawPathFrom depth i) := by
  induction depth generalizing i with
  | zero => exact fitPlace_none
  | succ depth ih =>
    unfold Function.rawPathFrom
    refine (hf.expr_yields hi).bind fun e he => ?_
    have hr : ∀ {r}, e.receiver = some r → Yields may (FitPlace may) (f.rawPathFrom depth r) :=
      fun h => ih (hf.receiver_lt he h)
    split
    · split
      · split
        · exact fitPlace_none
        · exact fitPlace_some (AccessPath.fitNames_ofLocal _)
      · exact fitPlace_none
    · exact fitPlace_none
    · exact hr ‹_›
    · refine ((hname e he).nameIn _).bind fun b _ => ?_
      split
      · exact hr ‹_›
      · split
        · exact fitPlace_none
        · rename_i step hstep
          have hfit : Fit may step := by
            unfold Expr.projection? at hstep
            split at hstep
            · obtain ⟨t, _, rfl⟩ := Option.map_eq_some_iff.mp hstep
              exact fit_text t
            · cases hstep
          exact (hr ‹_›).bind fun z hz => hz.extend hfit
    · exact (hr ‹_›).bind fun z hz => hz.extend (AccessPath.fit_stepOf (hname e he))
    · exact (hr ‹_›).bind fun z hz => hz.extend (fit_text "*")
    · exact (hr ‹_›).bind fun z hz => hz.extend (fit_text "[]")
    · exact (hr ‹_›).bind fun z hz => fitPlace_none

private theorem Function.Fits.rawPath (h : f.Fits may p) (hf : f.Valid) {i : Int}
    (hi : f.HasExpr i) :
    Yields may (FitPlace may) (f.rawPath i) := hf.rawPathFrom_yields h.name _ hi

namespace Aliases

/-- Aliases of a function, whose places have fit names and whose definitions are expressions. -/
structure Fits (may : Fault → Prop) (f : Function) (a : Aliases) : Prop where
  function : a.function = f
  source : ∀ s ∈ a.sources, s.2.FitNames may
  definition : ∀ d ∈ a.definitions, f.HasExpr d.2

namespace Fits

variable {a : Aliases}

private theorem expand (h : a.Fits may f) (seen : List Value) {q : AccessPath}
    (hq : q.FitNames may) :
    (a.expand seen q).FitNames may := by
  fun_induction Aliases.expand a seen q with
  | case1 => exact hq
  | case2 => exact hq
  | case3 seen q hs src hsrc ih =>
    refine ih ?_
    have hfit : src.FitNames may := by
      unfold Aliases.source? at hsrc
      split at hsrc
      · exact h.source _ (mem_of_lookup hsrc)
      · cases hsrc
    exact hfit.extend hq.projections

private theorem canonical (h : a.Fits may f) {q : AccessPath} (hq : q.FitNames may) :
    (a.canonical q).FitNames may := by
  have hexp := h.expand [] hq
  exact ⟨hexp.root, fun s hs => hexp.projections s (List.mem_filter.mp hs).1⟩

theorem pathOf (h : a.Fits may f) (hfit : f.Fits may p) (hf : f.Valid) {i : Int}
    (hi : f.HasExpr i) : Yields may (FitPlace may) (a.pathOf i) := by
  unfold Aliases.pathOf
  rw [h.function]
  refine (hfit.rawPath hf hi).bind fun z hz => ?_
  cases z with
  | none => exact fitPlace_none
  | some q => exact fitPlace_some (h.canonical (hz q rfl))

private theorem derivedFrom (h : a.Fits may f) (hfit : f.Fits may p) (hf : f.Valid) {e : Expr}
    (he : e ∈ f.exprs) :
    Yields may (fun z => ∀ i, z = some i → f.HasExpr i) (a.derivedFrom e) := by
  unfold Aliases.derivedFrom
  split
  · exact fun i hi => hf.receiver_lt he hi
  · exact fun i hi => hf.receiver_lt he hi
  · refine ((hfit.name e he).nameIn _).bind fun b _ => ?_
    intro i hi
    split at hi
    · exact hf.receiver_lt he hi
    · cases hi
  · intro i hi
    obtain ⟨name, _, hdef⟩ := Option.bind_eq_some_iff.mp hi
    exact h.definition _ (mem_of_lookup hdef)
  · exact fun i hi => (by cases hi)

/-- All origins of an expression are expressions, and a fault among them is one that may occur. -/
theorem originsFrom (h : a.Fits may f) (hfit : f.Fits may p) (hf : f.Valid) (length : Nat)
    (seen : List Int) {next : Option Int} (hn : ∀ i, next = some i → f.HasExpr i) :
    (∀ i ∈ (a.originsFrom length seen next).1, f.HasExpr i) ∧
      ∀ e, (a.originsFrom length seen next).2 = some e → may e := by
  induction length generalizing seen next with
  | zero =>
    rw [Aliases.originsFrom]
    exact ⟨fun i hi => (by cases hi), fun e he => (by cases he)⟩
  | succ length ih =>
    cases next with
    | none => exact ⟨fun i hi => (by cases hi), fun e he => (by cases he)⟩
    | some i =>
      have hi := hn i rfl
      rw [Aliases.originsFrom]
      split
      · exact ⟨fun i hi => (by cases hi), fun e he => (by cases he)⟩
      · have hstep : Yields may (fun z => ∀ j, z = some j → f.HasExpr j)
            (a.function.expr i >>= a.derivedFrom) := by
          rw [h.function]
          exact (hf.expr_yields hi).bind fun e he => h.derivedFrom hfit hf he
        split
        · rename_i e he
          rw [he] at hstep
          refine ⟨fun j hj => ?_, fun e' he' => ?_⟩
          · rw [List.mem_singleton.mp hj]
            exact hi
          · rw [← Option.some.inj he']
            exact hstep
        · rename_i next hnext
          rw [hnext] at hstep
          obtain ⟨hall, hfault⟩ := ih (i :: seen) hstep
          refine ⟨fun j hj => ?_, hfault⟩
          rcases List.mem_cons.mp hj with rfl | hj
          · exact hi
          · exact hall j hj

theorem origins (h : a.Fits may f) (hfit : f.Fits may p) (hf : f.Valid) {i : Int}
    (hi : f.HasExpr i) :
    (∀ j ∈ (a.origins i).1, f.HasExpr j) ∧ ∀ e, (a.origins i).2 = some e → may e := by
  refine h.originsFrom hfit hf _ _ fun j hj => ?_
  rw [← Option.some.inj hj]
  exact hi

theorem originList (h : a.Fits may f) (hfit : f.Fits may p) (hf : f.Valid) {i : Int}
    (hi : f.HasExpr i) : Yields may (fun is => ∀ j ∈ is, f.HasExpr j) (a.originList i) := by
  obtain ⟨hall, hfault⟩ := h.origins hfit hf hi
  unfold Aliases.originList
  split
  · rename_i is heq
    rw [heq] at hall
    exact hall
  · rename_i is e heq
    rw [heq] at hfault
    exact hfault e rfl

private theorem assign (h : a.Fits may f) (hfit : f.Fits may p) (hf : f.Valid) (name : String)
    {value : Int} (hv : f.HasExpr value) : Yields may (Fits may f) (a.assign name value) := by
  unfold Aliases.assign
  extract_lets a'
  have ha' : a'.Fits may f := by
    unfold a'
    split
    · exact h
    · refine ⟨h.function, h.source, fun d hd => ?_⟩
      rcases List.mem_append.mp hd with hd | hd
      · exact h.definition d hd
      · rw [List.mem_singleton.mp hd]
        exact hv
  have hraw : Yields may (FitPlace may) (a'.function.rawPath value) := by
    rw [ha'.function]
    exact hfit.rawPath hf hv
  refine hraw.bind fun z hz => ?_
  cases z with
  | none => exact ha'
  | some src =>
    simp only
    split
    · exact ha'
    · refine ⟨ha'.function, fun s hs => ?_, ha'.definition⟩
      rcases List.mem_append.mp hs with hs | hs
      · exact ha'.source s hs
      · rw [List.mem_singleton.mp hs]
        exact hz src rfl

private theorem stmt (h : a.Fits may f) (hfit : f.Fits may p) (hf : f.Valid) {b : Block}
    (hb : b ∈ f.blocks) {s : Stmt} (hs : s ∈ b.stmts) : Yields may (Fits may f) (a.stmt s) := by
  unfold Aliases.stmt
  split
  · rename_i t _ ht
    have htarget : Safe may (a.function.targetExpr t) := by
      rw [h.function]
      unfold Function.targetExpr
      split
      · exact (hf.expr_yields (hf.target b hb s hs _ ht)).safe
      · rename_i v
        rcases hfit.target b hb s hs _ ht with ⟨i, hi⟩ | hshape
        · cases hi
        · exact hshape
    refine htarget.bind fun target _ => ?_
    split
    · split
      · exact h
      · exact h.assign hfit hf _ (hf.value b hb s hs)
    · exact h
  · exact h

private theorem block (h : a.Fits may f) (hfit : f.Fits may p) (hf : f.Valid) {i : Int}
    (hi : f.HasBlock i) :
    Yields may (Fits may f) (a.block i) := by
  obtain ⟨b, hb, heq, _⟩ := hf.block_ok hi
  unfold Aliases.block
  rw [h.function, heq]
  exact Yields.foldlM h fun c hc s hs => hc.stmt hfit hf hb hs

end Fits
end Aliases

private theorem Function.Valid.visitOrder (hf : f.Valid) :
    Yields may (fun bs => ∀ b ∈ bs, f.HasBlock b) f.graph.visitOrder := by
  obtain ⟨order, horder, hmem⟩ := hf.exists_visitOrder
  rw [horder]
  intro b hb
  exact hf.mem_ids_iff.mp ((hmem b).mp hb)

theorem Aliases.of_yields (hfit : f.Fits may p) (hf : f.Valid) :
    Yields may (Aliases.Fits may f) (Aliases.of f) := by
  unfold Aliases.of
  refine hf.visitOrder.bind fun bs hbs => ?_
  refine Yields.foldlM ⟨rfl, fun s hs => (by cases hs), fun d hd => (by cases hd)⟩ ?_
  intro a ha b hb
  exact ha.block hfit hf (hbs b hb)

end AccountLint
