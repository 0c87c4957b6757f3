import AccountLint.Guard
import AccountLint.Proofs.Renumbering.Facts

/-! The guards of a function do not depend on the numbering of types. -/
namespace AccountLint

variable {ρ : Equiv.Perm Int} {f : Facts} {p' : Program}

theorem hasFact_renumber (t : Option TypeDecl) (fact : String) :
    hasFact (t.map (TypeDecl.renumber ρ)) fact = hasFact t fact := by
  cases t <;> rfl

/-- A step that looks at the kind of an expression, but not at its type, collects the same. -/
theorem Facts.collectM_located {β : Type} {step step' : Int × Expr → Except Fault (Option β)}
    (h : ∀ b e, step' (b, e.renumber ρ) = step (b, e)) :
    collectM step' (f.renumber ρ p').located = collectM step f.located := by
  change collectM step' (f.located.map _) = _
  rw [collectM_map]
  exact congrArg (fun step => collectM step f.located) (funext fun l => h l.1 l.2)

namespace GuardPattern

variable (q : GuardPattern) (c : Category)

private theorem fieldRead_renumber (b : Int) (e : Expr) :
    q.fieldRead (f.renumber ρ p') c (b, e.renumber ρ) = q.fieldRead f c (b, e) := by
  unfold fieldRead
  simp only [f.pathOf_renumber]
  rfl

private theorem comparison_renumber (b : Int) (e : Expr) :
    q.comparison (f.renumber ρ p') c (b, e.renumber ρ) = q.comparison f c (b, e) := by
  have habout : q.aboutOperand (f.renumber ρ p') = q.aboutOperand f := by
    funext i
    unfold aboutOperand
    rw [f.pathOf_renumber]
  unfold comparison
  rw [habout]
  rfl

private theorem clearingStore_renumber :
    q.clearingStore (f.renumber ρ p') = q.clearingStore f := by
  funext loops c root
  unfold clearingStore
  simp only [f.isZero_renumber, f.targetPath_renumber]

private theorem clearingCall_renumber (b : Int) (e : Expr) :
    q.clearingCall (f.renumber ρ p') c (b, e.renumber ρ) = q.clearingCall f c (b, e) := by
  unfold clearingCall
  simp only [f.pathOf_renumber]
  rfl

end GuardPattern

namespace Program.Renumbers

variable (h : f.program.Renumbers ρ p')
include h

private theorem declaredField (e : Expr) :
    (f.renumber ρ p').declaredField (e.renumber ρ) =
      (f.declaredField e).map (Option.map (FieldDecl.renumber ρ)) := by
  unfold Facts.declaredField
  rw [e.kind_renumber, e.receiver_renumber]
  split
  · refine exceptMap_bind_of_exceptMap (f.expr_renumber _) fun r => ?_
    refine exceptMap_bind_of_exceptMap (h.structBehind r.type) fun z => ?_
    cases z with
    | none => rfl
    | some owner => exact congrArg Except.ok (owner.fieldNamed?_renumber ρ _)
  · rfl

private theorem accountsOf (r : Option TypeRef) :
    GuardPattern.accountsOf (f.renumber ρ p') (r.map (TypeRef.renumber ρ)) =
      (GuardPattern.accountsOf f r).map (Option.map (TypeDecl.renumber ρ)) := by
  unfold GuardPattern.accountsOf
  refine exceptMap_bind_of_exceptMap (h.type? r) fun z => ?_
  cases z with
  | none => rfl
  | some t =>
    have hfield : ((t.renumber ρ).fieldNamed? (.text "accounts")).toList.map (·.type) =
        ((t.fieldNamed? (.text "accounts")).toList.map (·.type)).map
          (Option.map (TypeRef.renumber ρ)) := by
      rw [t.fieldNamed?_renumber]
      cases t.fieldNamed? (.text "accounts") <;> rfl
    dsimp only [Option.map_some]
    rw [hfield, show (t.renumber ρ).args = t.args.map (Option.map (TypeRef.renumber ρ)) from rfl,
      ← List.map_append]
    exact firstM_exceptMap h.structBehind _

private theorem isSigner (q : GuardPattern) (d : FieldDecl) :
    q.isSigner (f.renumber ρ p') (d.renumber ρ) = q.isSigner f d := by
  unfold GuardPattern.isSigner
  refine ite_congr rfl (fun _ => rfl) fun _ => ?_
  exact bind_of_exceptMap (h.type? d.type) fun t => hasFact_renumber t _

private theorem signerMarker (q : GuardPattern) (c : Category) (a : Param) :
    q.signerMarker (f.renumber ρ p') c (a.renumber ρ) = q.signerMarker f c a := by
  unfold GuardPattern.signerMarker
  refine bind_of_exceptMap (h.type? a.type) fun t => ?_
  rw [hasFact_renumber]
  refine bind_congr fun signs => ite_congr rfl (fun _ => rfl) fun _ => ?_
  refine bind_of_exceptMap (h.accountsOf a.type) fun z => ?_
  cases z with
  | none => rfl
  | some accounts =>
    refine Eq.trans collectM_map ?_
    refine congrArg (fun step => collectM step accounts.fields) (funext fun d => ?_)
    rw [h.isSigner]
    rfl

private theorem declaredConstraint (q : GuardPattern) (c : Category) (b : Int) (e : Expr) :
    q.declaredConstraint (f.renumber ρ p') c (b, e.renumber ρ) = q.declaredConstraint f c (b, e) := by
  unfold GuardPattern.declaredConstraint
  refine bind_of_exceptMap (h.declaredField e) fun z => ?_
  cases z with
  | none => rfl
  | some d =>
    simp only [f.pathOf_renumber]
    rfl

private theorem distinctConstraint (q : GuardPattern) (c : Category) (b : Int) (e : Expr) :
    q.distinctConstraint (f.renumber ρ p') c (b, e.renumber ρ) = q.distinctConstraint f c (b, e) := by
  unfold GuardPattern.distinctConstraint
  refine bind_of_exceptMap (h.declaredField e) fun z => ?_
  cases z with
  | none => rfl
  | some d =>
    simp only [f.pathOf_renumber]
    rfl

private theorem guards (q : GuardPattern) (c : Category) :
    q.guards (f.renumber ρ p') c = q.guards f c := by
  unfold GuardPattern.guards
  split
  · exact Facts.collectM_located (q.fieldRead_renumber c)
  · exact Facts.collectM_located (q.comparison_renumber c)
  · change concatM _ (f.function.params.map _) = _
    rw [concatM_map]
    exact congrArg (fun step => concatM step f.function.params) (funext (h.signerMarker q c))
  · exact Facts.collectM_located (h.declaredConstraint q c)
  · exact Facts.collectM_located (h.distinctConstraint q c)
  · rw [q.clearingStore_renumber, Facts.collectM_located (q.clearingCall_renumber c)]
    rfl

/-- The guards of a rule are the same, whatever the numbers of the types are. -/
theorem guardsIn (r : Rule) : r.guardsIn (f.renumber ρ p') = r.guardsIn f :=
  congrArg (fun step => concatM step r.guards) (funext fun q => h.guards q r.category)

end Program.Renumbers

end AccountLint
