import AccountLint.Proofs.Guard.KeyChecks
import AccountLint.Proofs.Hardening.Sinks
import AccountLint.Proofs.Verdict.Coverage

/-! Hardening loses no guard: what a guard covers is still covered by one in the same block. The one
exception are the markers of signers, where a guard of a parameter may take the place of those of
the accounts behind it; there is still one. -/
namespace AccountLint

private theorem GuardPattern.guard_eq_ok {q : GuardPattern} {c : Category} {b : Int}
    {ps : List AccessPath} {l : Location} {g : Guard} (h : q.guard c b ps l = .ok g) :
    g.block = b ∧ ∀ r, (∃ s ∈ g.paths, s.same r = true) ↔ ∃ s ∈ ps, s.same r = true := by
  obtain ⟨qs, hqs, h⟩ := bind_eq_ok.mp h
  obtain rfl := pure_eq_ok.mp h
  exact ⟨rfl, fun r => AccessPath.exists_same_setOf hqs⟩

/-- A guard of more places outdoes one of fewer in the same block. -/
theorem GuardPattern.guard_outdoes {q : GuardPattern} {c : Category} {b : Int}
    {ps ps' : List AccessPath} (hps : ps ⊆ ps') (l l' : Location) (paths : List AccessPath) :
    Agree (fun g g' => Outdoes paths [g] [g']) (q.guard c b ps l) (q.guard c b ps' l') := by
  intro g g' hg hg' g₁ hmem hc
  rw [List.mem_singleton.mp hmem] at hc ⊢
  obtain ⟨hb, hp⟩ := guard_eq_ok hg
  obtain ⟨hb', hp'⟩ := guard_eq_ok hg'
  refine ⟨g', List.mem_singleton_self g', ?_, hb'.trans hb.symm⟩
  rw [Guard.covers_eq_true_iff] at hc ⊢
  intro r hr
  obtain ⟨s, hs, hsame⟩ := (hp r).mp (hc r hr)
  exact (hp' r).mpr ⟨s, hps hs, hsame⟩

/-- Parameters that sign are guards of the whole body. -/
theorem GuardPattern.signerMarker_block (q : GuardPattern) {f : Facts} {c : Category}
    {param : Param} {gs : List Guard} (h : q.signerMarker f c param = .ok gs) {g : Guard}
    (hg : g ∈ gs) :
    g.block = f.function.entry := by
  obtain ⟨t, _, h⟩ := bind_eq_ok.mp h
  obtain ⟨signs, _, h⟩ := bind_eq_ok.mp h
  cases signs with
  | true =>
    obtain ⟨g₁, hg₁, h⟩ := bind_eq_ok.mp h
    rw [← pure_eq_ok.mp h] at hg
    rw [List.mem_singleton.mp hg]
    exact (guard_eq_ok hg₁).1
  | false =>
    obtain ⟨accounts, _, h⟩ := bind_eq_ok.mp h
    cases accounts with
    | none =>
      rw [← pure_eq_ok.mp h] at hg
      cases hg
    | some accounts =>
      obtain ⟨d, _, hd⟩ := (mem_collectM h).mp hg
      obtain ⟨signs, _, hd⟩ := bind_eq_ok.mp hd
      cases signs with
      | true =>
        obtain ⟨g₁, hg₁, hd⟩ := bind_eq_ok.mp hd
        rw [← Option.some.inj (pure_eq_ok.mp hd)]
        exact (guard_eq_ok hg₁).1
      | false => cases pure_eq_ok.mp hd

private theorem FieldDecl.Hardens.hasAny {d d' : FieldDecl} (h : d.Hardens d')
    (names : List String) :
    d.hasAny names ≤ d'.hasAny names := by
  intro hd
  obtain ⟨n, hn, hc⟩ := FieldDecl.hasAny_eq_true_iff.mp hd
  exact FieldDecl.hasAny_eq_true_iff.mpr ⟨n, hn, h.constraints hc⟩

private theorem FieldDecl.Hardens.placeFor {d d' : FieldDecl} (h : d.Hardens d') (e : Expr) :
    d'.placeFor e = d.placeFor e := by
  unfold FieldDecl.placeFor
  rw [h.location]

private theorem sortedSet_agree {xs xs' : List Value} (h : xs ⊆ xs') :
    Agree (fun ys ys' => ys ⊆ ys') (sortedSet xs) (sortedSet xs') := by
  unfold sortedSet
  intro ys ys' hys hys'
  split at hys
  · split at hys'
    · rw [← Except.ok.inj hys, ← Except.ok.inj hys']
      exact fun v hv => mem_sortBy.mpr (h (mem_sortBy.mp hv))
    · cases hys'
  · cases hys

namespace Program.Hardens

variable {f : Facts} {p' : Program} {paths : List AccessPath}

private theorem declaredField (h : f.program.Hardens p') (e : Expr) :
    Alike (Option.Rel FieldDecl.Hardens) (f.declaredField e) ((f.under p').declaredField e) := by
  unfold Facts.declaredField
  split
  · rename_i r _ _
    change Alike _ (f.function.expr r >>= _) (f.function.expr r >>= _)
    cases f.function.expr r with
    | error e => exact .error e
    | ok owned =>
      refine (h.structBehind owned.type).bind fun z z' hz => ?_
      cases hz with
      | none => exact .ok .none
      | some ht => exact .ok (ht.fieldNamed? _)
  · exact .ok .none

private theorem declaredConstraint (h : f.program.Hardens p') (q : GuardPattern) (c : Category)
    (l : Int × Expr) : Agree (fun z z' => Outdoes paths z.toList z'.toList)
      (q.declaredConstraint f c l) (q.declaredConstraint (f.under p') c l) := by
  refine (h.declaredField l.2).agree.bind fun z z' hz => ?_
  cases hz with
  | none => exact .ok (.nil_left [])
  | @some d d' hd =>
    dsimp only
    cases hany : d.hasAny q.names with
    | false => exact .of_left fun _ => .nil_left _
    | true =>
      rw [hd.hasAny q.names hany, hd.placeFor]
      exact .of_eq rfl fun z => .refl _

private theorem distinctConstraint (h : f.program.Hardens p') (q : GuardPattern) (c : Category)
    (l : Int × Expr) : Agree (fun z z' => Outdoes paths z.toList z'.toList)
      (q.distinctConstraint f c l) (q.distinctConstraint (f.under p') c l) := by
  refine (h.declaredField l.2).agree.bind fun z z' hz => ?_
  cases hz with
  | none => exact .ok (.nil_left [])
  | @some d d' hd =>
    dsimp only
    cases hempty : d.distinctFrom.isEmpty with
    | true => exact .of_left fun _ => .nil_left _
    | false =>
      have hempty' : d'.distinctFrom.isEmpty = false := by
        rw [← Bool.not_eq_true, List.isEmpty_iff] at hempty ⊢
        intro hnil
        exact hempty (List.subset_nil.mp (hnil ▸ hd.distinctFrom))
      rw [hempty']
      refine .bind_self fun path _ => ?_
      cases path with
      | none => exact .ok (.nil_left [])
      | some path =>
        dsimp only
        cases path.parent? with
        | none => exact .ok (.nil_left [])
        | some parent =>
          refine (sortedSet_agree hd.distinctFrom).bind fun ns ns' hns => ?_
          refine (GuardPattern.guard_outdoes ?_ _ _ paths).bind fun g g' hg => .ok hg
          exact List.cons_subset_cons path (List.map_subset _ hns)

private theorem isSigner (h : f.program.Hardens p') (q : GuardPattern) {d d' : FieldDecl}
    (hd : d.Hardens d') : Agree (· ≤ ·) (q.isSigner f d) (q.isSigner (f.under p') d') := by
  unfold GuardPattern.isSigner
  cases hany : d'.hasAny q.names with
  | true => exact .of_right Bool.le_true
  | false =>
    have hold : d.hasAny q.names = false := Bool.eq_false_of_le_false (hany ▸ hd.hasAny q.names)
    rw [hold, hd.type]
    exact (h.type? d.type).agree.bind fun z z' hz => hasFact_agree hz TypeFact.signer

private theorem accountsOf (h : f.program.Hardens p') (r : Option TypeRef) :
    Alike (Option.Rel TypeDecl.Hardens) (GuardPattern.accountsOf f r)
      (GuardPattern.accountsOf (f.under p') r) := by
  refine (h.type? r).bind fun z z' hz => ?_
  cases hz with
  | none => exact .ok .none
  | @some t t' ht =>
    have htypes : (t'.fieldNamed? (.text "accounts")).toList.map (·.type) =
        (t.fieldNamed? (.text "accounts")).toList.map (·.type) := by
      have hfield := ht.fieldNamed? (.text "accounts")
      generalize t.fieldNamed? _ = d at hfield ⊢
      generalize t'.fieldNamed? _ = d' at hfield ⊢
      cases hfield with
      | none => rfl
      | some hd => exact congrArg (fun r => [r]) hd.type
    dsimp only
    rw [ht.args, htypes]
    exact .firstM h.structBehind

/-- A parameter that now signs by itself is one guard, in place of any that its accounts were. -/
theorem signerMarker (h : f.program.Hardens p') (q : GuardPattern) (c : Category) (param : Param) :
    Agree (Outdoes []) (q.signerMarker f c param) (q.signerMarker (f.under p') c param) := by
  -- the guards before may be many, and that they are at the entry is seen from the whole list only
  have hagree : Agree (fun gs gs' => (∀ g ∈ gs, g.block = f.function.entry) → Outdoes [] gs gs')
      (q.signerMarker f c param) (q.signerMarker (f.under p') c param) := by
    refine (h.type? param.type).agree.bind fun t t' ht => ?_
    refine (hasFact_agree ht TypeFact.signer).bind_le (fun a => ?_) ?_
    · intro gs gs' _ hgs' hentry g hg _
      obtain ⟨g', hg', hgs'⟩ := bind_eq_ok.mp hgs'
      rw [← pure_eq_ok.mp hgs', hentry g hg]
      exact ⟨g', List.mem_singleton_self g', rfl, (GuardPattern.guard_eq_ok hg').1⟩
    · refine (h.accountsOf param.type).agree.bind fun z z' hz => ?_
      cases hz with
      | none => exact .ok fun _ => .nil_left []
      | some hs =>
        refine Agree.mono ?_ fun gs gs' hgs _ => hgs
        refine .collectM (.nil_left []) Outdoes.append (hs.fields.imp fun d d' hd => ?_)
        refine (h.isSigner q hd).bind fun a b hab => ?_
        cases a with
        | false => exact .of_left fun _ => .nil_left _
        | true =>
          obtain rfl : b = true := hab rfl
          rw [hd.name, hd.location]
          exact .of_eq rfl fun z => .refl _
  intro gs gs' hgs hgs'
  exact hagree gs gs' hgs hgs' fun g hg => q.signerMarker_block hgs hg

private theorem guards (h : f.program.Hardens p') (q : GuardPattern)
    (hq : q.kind = .signerMarker → paths = []) (c : Category) :
    Agree (Outdoes paths) (q.guards f c) (q.guards (f.under p') c) := by
  unfold GuardPattern.guards
  cases hk : q.kind
  case signerMarker =>
    rw [hq hk]
    exact .concatM (.nil_left []) Outdoes.append
      (List.forall₂_same.mpr fun param _ => h.signerMarker q c param)
  case declaredConstraint =>
    exact .collectM (.nil_left []) Outdoes.append
      (List.forall₂_same.mpr fun l _ => h.declaredConstraint q c l)
  case distinctConstraint =>
    exact .collectM (.nil_left []) Outdoes.append
      (List.forall₂_same.mpr fun l _ => h.distinctConstraint q c l)
  all_goals exact .of_eq rfl fun gs => .refl gs

theorem guardsIn (h : f.program.Hardens p') (r : Rule)
    (hr : ∀ q ∈ r.guards, q.kind = .signerMarker → paths = []) :
    Agree (Outdoes paths) (r.guardsIn f) (r.guardsIn (f.under p')) :=
  .concatM (.nil_left []) Outdoes.append
    (List.forall₂_same.mpr fun q hq => h.guards q (hr q hq) r.category)

end Program.Hardens
end AccountLint
