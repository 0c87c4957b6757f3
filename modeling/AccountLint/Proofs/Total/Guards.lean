import AccountLint.Guard
import AccountLint.Proofs.Total.Facts

/-! The guards of any rule can be found in a function that fits its program. -/
namespace AccountLint

variable {may : Fault → Prop} {f : Facts}

theorem fitNames_toList {z : Option AccessPath} (h : FitPlace may z) :
    ∀ q ∈ z.toList, q.FitNames may := fun q hq => h q (Option.mem_toList.mp hq)

theorem AccessPath.FitNames.parent {q r : AccessPath} (h : q.FitNames may)
    (hr : q.parent? = some r) :
    r.FitNames may := by
  unfold AccessPath.parent? at hr
  split at hr
  · cases hr
  · rw [← Option.some.inj hr]
    exact ⟨h.root, fun s hs => h.projections s (List.dropLast_subset _ hs)⟩

/-- What a field of the table is known by. -/
def Program.Declares (p : Program) (d : FieldDecl) : Prop := ∃ t ∈ p.types, d ∈ t.fields

private theorem Facts.Fits.declaredField (h : f.Fits may) {e : Expr} (he : e ∈ f.function.exprs) :
    Yields may (fun z => ∀ d, z = some d → f.program.Declares d) (f.declaredField e) := by
  unfold Facts.declaredField
  split
  · refine (h.expr (h.valid.receiver_lt he ‹_›)).bind fun r hr => ?_
    refine (h.types.structBehind (h.function.type r hr)).bind fun z hz => ?_
    cases z with
    | none => exact fun d hd => (by cases hd)
    | some t => exact fun d hd => ⟨t, hz t rfl, TypeDecl.mem_of_fieldNamed? hd⟩
  · exact fun d hd => (by cases hd)

theorem Facts.Fits.targetPath (h : f.Fits may) {b : Int} {s : Stmt} (hs : (b, s) ∈ f.function.roots)
    {t : Target} (ht : s.target = some t) : Yields may (FitPlace may) (f.targetPath t) := by
  obtain ⟨k, hk, _, hsk⟩ := Function.mem_roots_iff.mp hs
  unfold Facts.targetPath
  split
  · exact h.pathOf_some (h.valid.target k hk s hsk _ ht)
  · rcases h.function.target k hk s hsk _ ht with ⟨i, hi⟩ | hshape
    · cases hi
    · exact hshape

namespace GuardPattern

private theorem guard_safe (p : GuardPattern) (c : Category) (b : Int) {paths : List AccessPath}
    (h : ∀ q ∈ paths, q.FitNames may) (l : Location) : Safe may (p.guard c b paths l) :=
  (AccessPath.setOf_yields h).bind fun _ _ => trivial

private theorem fieldRead_safe (p : GuardPattern) (h : f.Fits may) (c : Category) {b : Int}
    {e : Expr} (he : e ∈ f.function.exprs) : Safe may (p.fieldRead f c (b, e)) := by
  unfold fieldRead
  dsimp only
  split
  · trivial
  · refine ((h.function.name e he).nameIn _).bind fun named _ => ?_
    split
    · trivial
    · refine (h.pathOf fun r hr => h.valid.receiver_lt he hr).bind fun z hz => ?_
      exact (p.guard_safe c _ (fitNames_toList hz) _).bind fun _ _ => trivial

private theorem compared_yields (p : GuardPattern) (h : f.Fits may) {e : Expr}
    (he : e ∈ f.function.exprs) :
    Yields may (fun is => ∀ i ∈ is, f.function.HasExpr i) (p.compared e) := by
  have hops : ∀ i ∈ e.operands, f.function.HasExpr i := fun i hi => h.valid.operand_lt he hi
  have hchildren : ∀ i ∈ e.children, f.function.HasExpr i := fun i hi => (h.valid.child_lt he hi).1
  have hnil : ∀ i ∈ ([] : List Int), f.function.HasExpr i := fun i hi => (by cases hi)
  unfold compared
  split
  · refine ((h.function.name e he).nameIn _).bind fun b _ => ?_
    split
    · exact hops
    · exact hnil
  · split
    · refine ((h.function.name e he).nameIn _).bind fun b _ => ?_
      split
      · exact hchildren
      · exact hnil
    · refine ((h.function.name e he).matchesAny _).bind fun b _ => ?_
      split
      · exact hops
      · exact hnil
  · exact hnil

private theorem aboutPlace_fit (p : GuardPattern) {q : AccessPath} (hq : q.FitNames may) :
    ∀ r ∈ p.aboutPlace q, r.FitNames may := by
  intro r hr
  unfold aboutPlace at hr
  split at hr
  · rename_i hparent
    split at hr
    · rcases List.mem_cons.mp hr with rfl | hr
      · exact hq
      · rw [List.mem_singleton.mp hr]
        exact hq.parent hparent
    · rw [List.mem_singleton.mp hr]
      exact hq
  · rw [List.mem_singleton.mp hr]
    exact hq

private theorem comparison_safe (p : GuardPattern) (h : f.Fits may) (c : Category) {b : Int}
    {e : Expr} (he : e ∈ f.function.exprs) : Safe may (p.comparison f c (b, e)) := by
  unfold comparison
  refine (p.compared_yields h he).bind fun is his => ?_
  split
  · trivial
  · have habout : Yields may (fun qs => ∀ q ∈ qs, q.FitNames may)
        (concatM (p.aboutOperand f) is) := by
      refine Yields.concatM fun i hi => ?_
      refine (h.pathOf_some (his i hi)).bind fun z hz => ?_
      cases z with
      | none => exact fun q hq => (by cases hq)
      | some q => exact AccessPath.setOf_yields (p.aboutPlace_fit (hz q rfl))
    refine habout.bind fun qs hqs => ?_
    exact (p.guard_safe c _ hqs _).bind fun _ _ => trivial

private theorem accountsOf_yields (h : f.Fits may) {r : Option TypeRef} (hr : f.program.InTable r) :
    Yields may (fun z => ∀ t, z = some t → t ∈ f.program.types) (accountsOf f r) := by
  unfold accountsOf
  refine hr.type?.bind fun z hz => ?_
  cases z with
  | none => exact fun t ht => (by cases ht)
  | some t =>
    refine Yields.firstM fun q hq => h.types.structBehind ?_
    rcases List.mem_append.mp hq with hq | hq
    · obtain ⟨d, hd, rfl⟩ := List.mem_map.mp hq
      exact h.types.field t (hz t rfl) d (TypeDecl.mem_of_fieldNamed? (Option.mem_toList.mp hd))
    · exact h.types.arg t (hz t rfl) q hq

private theorem signerMarker_safe (p : GuardPattern) (h : f.Fits may) (c : Category) {param : Param}
    (hp : param ∈ f.function.params) : Safe may (p.signerMarker f c param) := by
  have hname := h.function.paramName param hp
  have htype := h.function.paramType param hp
  unfold signerMarker
  refine htype.type?.bind fun t ht => (h.hasFact ht _).bind fun b _ => ?_
  split
  · refine (p.guard_safe c _ (fun q hq => ?_) _).bind fun _ _ => trivial
    rw [List.mem_singleton.mp hq]
    exact ⟨hname, fun s hs => (by cases hs)⟩
  · refine (accountsOf_yields h htype).bind fun z hz => ?_
    cases z with
    | none => trivial
    | some accounts =>
      refine Yields.collectM_safe fun d hd => ?_
      have hsigner : Safe may (p.isSigner f d) := by
        unfold isSigner
        split
        · trivial
        · exact (h.types.field accounts (hz accounts rfl) d hd).type?.bind fun t ht => h.hasFact ht _
      refine hsigner.bind fun b _ => ?_
      split
      · refine (p.guard_safe c _ (fun q hq => ?_) _).bind fun _ _ => trivial
        rw [List.mem_singleton.mp hq]
        refine ⟨hname, fun s hs => ?_⟩
        rcases List.mem_cons.mp hs with rfl | hs
        · exact fit_text "accounts"
        · rw [List.mem_singleton.mp hs]
          exact (h.names accounts (hz accounts rfl)).fields d hd
      · trivial

private theorem declaredConstraint_safe (p : GuardPattern) (h : f.Fits may) (c : Category) {b : Int}
    {e : Expr} (he : e ∈ f.function.exprs) : Safe may (p.declaredConstraint f c (b, e)) := by
  unfold declaredConstraint
  refine (h.declaredField he).bind fun z _ => ?_
  cases z with
  | none => trivial
  | some d =>
    dsimp only
    split
    · trivial
    · refine (h.pathOf_some (h.valid.expr_id he).1).bind fun q hq => ?_
      exact (p.guard_safe c _ (fitNames_toList hq) _).bind fun _ _ => trivial

private theorem distinctConstraint_safe (p : GuardPattern) (h : f.Fits may) (c : Category) {b : Int}
    {e : Expr} (he : e ∈ f.function.exprs) : Safe may (p.distinctConstraint f c (b, e)) := by
  unfold distinctConstraint
  refine (h.declaredField he).bind fun z hz => ?_
  cases z with
  | none => trivial
  | some d =>
    dsimp only
    split
    · trivial
    · refine (h.pathOf_some (h.valid.expr_id he).1).bind fun q hq => ?_
      cases q with
      | none => trivial
      | some path =>
        have hpath := hq path rfl
        dsimp only
        split
        · trivial
        · rename_i parent hparent
          obtain ⟨t, ht, hd⟩ := hz d rfl
          refine (sortedSet_yields fun n hn => (h.names t ht).distinctFrom d hd n hn).bind
            fun ns hns => ?_
          refine (p.guard_safe c _ (fun q hq => ?_) _).bind fun _ _ => trivial
          rcases List.mem_cons.mp hq with rfl | hq
          · exact hpath
          · obtain ⟨n, hn, rfl⟩ := List.mem_map.mp hq
            refine (hpath.parent hparent).extend fun s hs => ?_
            rw [List.mem_singleton.mp hs]
            exact (h.names t ht).distinctFrom d hd n (hns n hn)

private theorem beforeStep_yields (names : List String) {steps : List Value}
    (h : ∀ s ∈ steps, Fit may s) :
    Yields may (fun z => ∀ before, z = some before → ∀ s ∈ before, Fit may s)
      (beforeStep names steps) := by
  induction steps with
  | nil => exact fun before hb => (by cases hb)
  | cons step steps ih =>
    rw [beforeStep]
    refine ((h step List.mem_cons_self).isOneOf names).bind fun found _ => ?_
    split
    · intro before hb s hs
      rw [← Option.some.inj hb] at hs
      cases hs
    · refine (ih fun s hs => h s (List.mem_cons_of_mem _ hs)).bind fun z hz => ?_
      intro before hb s hs
      obtain ⟨rest, hrest, rfl⟩ := Option.map_eq_some_iff.mp hb
      rcases List.mem_cons.mp hs with rfl | hs
      · exact h s List.mem_cons_self
      · exact hz rest hrest s hs

private theorem accountOf_yields (p : GuardPattern) {z : Option AccessPath} (h : FitPlace may z) :
    Yields may (FitPlace may) (p.accountOf z) := by
  cases z with
  | none => exact fitPlace_none
  | some path =>
    have hpath := h path rfl
    refine (beforeStep_yields p.names hpath.projections).bind fun before hb => ?_
    intro q hq
    obtain ⟨steps, hsteps, rfl⟩ := Option.map_eq_some_iff.mp hq
    exact ⟨hpath.root, hb steps hsteps⟩

private theorem account_guard_safe (p : GuardPattern) (c : Category) (b : Int) (l : Location)
    {z : Option AccessPath} : FitPlace may z → Safe may (match z with
      | none => pure none
      | some account => return some (← p.guard c b [account] l) : Except Fault (Option Guard)) := by
  intro hz
  cases z with
  | none => trivial
  | some account =>
    refine (p.guard_safe c b (fun q hq => ?_) l).bind fun _ _ => trivial
    rw [List.mem_singleton.mp hq]
    exact hz account rfl

private theorem clearingStore_safe (p : GuardPattern) (h : f.Fits may) (loops : List Int)
    (c : Category) {b : Int} {s : Stmt} (hs : (b, s) ∈ f.function.roots) :
    Safe may (p.clearingStore f loops c (b, s)) := by
  obtain ⟨k, hk, _, hsk⟩ := Function.mem_roots_iff.mp hs
  unfold clearingStore
  dsimp only
  split
  · rename_i ht
    split
    · trivial
    · refine (h.isZero (h.valid.value k hk s hsk)).bind fun zero _ => ?_
      split
      · trivial
      · refine (h.targetPath hs ht).bind fun z hz => (p.accountOf_yields hz).bind fun z hz => ?_
        exact p.account_guard_safe c b _ hz
  · trivial

private theorem clearingCall_safe (p : GuardPattern) (h : f.Fits may) (c : Category) {b : Int}
    {e : Expr} (he : e ∈ f.function.exprs) : Safe may (p.clearingCall f c (b, e)) := by
  unfold clearingCall
  dsimp only
  split
  · trivial
  · refine ((h.function.name e he).matchesAny _).bind fun called _ => ?_
    split
    · trivial
    · have hpath : Yields may (FitPlace may)
          (f.pathOf (if e.isMethodCall then e.receiver else e.operands.head?)) := by
        refine h.pathOf fun i hi => ?_
        split at hi
        · exact h.valid.receiver_lt he hi
        · exact h.valid.operand_lt he (List.mem_of_mem_head? hi)
      refine hpath.bind fun z hz => (p.accountOf_yields hz).bind fun z hz => ?_
      exact p.account_guard_safe c b _ hz

private theorem guards_safe (p : GuardPattern) (h : f.Fits may) (c : Category) :
    Safe may (p.guards f c) := by
  unfold guards
  split
  · exact Yields.collectM_safe fun l hl => p.fieldRead_safe h c (h.located l hl)
  · exact Yields.collectM_safe fun l hl => p.comparison_safe h c (h.located l hl)
  · exact Yields.concatM_safe fun param hp => p.signerMarker_safe h c hp
  · exact Yields.collectM_safe fun l hl => p.declaredConstraint_safe h c (h.located l hl)
  · exact Yields.collectM_safe fun l hl => p.distinctConstraint_safe h c (h.located l hl)
  · refine (Yields.collectM_safe fun root hr => p.clearingStore_safe h _ c hr).bind fun _ _ => ?_
    refine (Yields.collectM_safe fun l hl => p.clearingCall_safe h c (h.located l hl)).bind
      fun _ _ => trivial

end GuardPattern

theorem Rule.guardsIn_safe (r : Rule) (h : f.Fits may) : Safe may (r.guardsIn f) :=
  Yields.concatM_safe fun p _ => p.guards_safe h r.category

end AccountLint
