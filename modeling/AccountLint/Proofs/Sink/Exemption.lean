import AccountLint.Proofs.Alias.Origins
import AccountLint.Sink.Exemption

/-! Exemptions, said without the search for them: an expression is exempt if it derives, in any
number of steps, from a value whose type vouches for it. -/
namespace AccountLint

namespace Facts

def TypeHas (f : Facts) (fact : String) (i : Option Int) : Prop :=
  ∃ t, f.typeOf i = .ok (some t) ∧ t.hasFact fact = .ok true

/-- A value has a type with a fact, or is the account of such a value. -/
def Establishes (f : Facts) (fact : String) (i : Int) : Prop :=
  (∃ e, f.function.expr i = .ok e ∧ e.isMethodCall = true ∧ e.name = some (.text "to_account_info") ∧
    f.TypeHas fact e.receiver) ∨ f.TypeHas fact (some i)

variable {f : Facts} {fact : String}

private theorem hasFact_typeOf {i : Option Int} {t : Option TypeDecl} {b : Bool}
    (ht : f.typeOf i = .ok t) (h : hasFact t fact = .ok b) : b = true ↔ f.TypeHas fact i := by
  unfold TypeHas
  rw [ht]
  cases t with
  | none =>
    obtain rfl := Except.ok.inj h
    simp
  | some t =>
    change t.hasFact fact = .ok b at h
    simp [h]

private theorem establishes_eq_ok {i : Int} {b : Bool} (h : f.establishes fact i = .ok b) :
    b = true ↔ f.Establishes fact i := by
  obtain ⟨e, he, h⟩ := bind_eq_ok.mp h
  have hlast : ∀ c, (f.typeOf (some i) >>= fun t => hasFact t fact) = .ok c →
      (c = true ↔ f.TypeHas fact (some i)) := by
    intro c hc
    obtain ⟨t, ht, hc⟩ := bind_eq_ok.mp hc
    exact hasFact_typeOf ht hc
  unfold Establishes
  rw [he]
  split at h
  · rename_i hcall
    simp only [Bool.and_eq_true, beq_iff_eq] at hcall
    obtain ⟨t, ht, h⟩ := bind_eq_ok.mp h
    obtain ⟨c, hc, h⟩ := bind_eq_ok.mp h
    have hreceiver := hasFact_typeOf ht hc
    cases c with
    | true =>
      obtain rfl := pure_eq_ok.mp h
      simpa [hcall] using Or.inl (hreceiver.mp rfl)
    | false =>
      have hnot : ¬f.TypeHas fact e.receiver := fun hhas => Bool.noConfusion (hreceiver.mpr hhas)
      rw [hlast b h]
      simp [hnot]
  · rename_i hcall
    rw [hlast b h]
    simp only [Bool.and_eq_true, beq_iff_eq, not_and] at hcall
    simpa using fun hm hn => absurd hn (hcall hm)

private theorem firstOrigin_eq_ok {β : Type} {step : Int → Except Fault (Option β)} {i : Int}
    {z : Option β} (h : f.firstOrigin step i = .ok z) :
    firstM step (f.aliases.origins i).1 = .ok z := by
  unfold firstOrigin at h
  generalize f.aliases.origins i = origins at h ⊢
  obtain ⟨is, fault⟩ := origins
  obtain ⟨found, hfound, h⟩ := bind_eq_ok.mp h
  rw [hfound]
  cases found with
  | some b => exact h
  | none =>
    cases fault with
    | none => exact h
    | some e => cases h

/-- An expression derives from a value that establishes a fact if one of its origins does. -/
theorem derivesFrom_eq_ok {i : Int} {b : Bool} (h : f.derivesFrom fact i = .ok b) :
    b = true ↔ ∃ o, Relation.ReflTransGen f.aliases.Derives i o ∧ f.Establishes fact o := by
  obtain ⟨found, hfound, h⟩ := bind_eq_ok.mp h
  obtain rfl := pure_eq_ok.mp h
  obtain ⟨hsome, hnone⟩ := firstM_eq_ok (firstOrigin_eq_ok hfound)
  have hstep : ∀ o y, (do return if ← f.establishes fact o then some () else none) = .ok y →
      (y.isSome = true ↔ f.Establishes fact o) := by
    intro o y hy
    obtain ⟨c, hc, hy⟩ := bind_eq_ok.mp hy
    obtain rfl := pure_eq_ok.mp hy
    rw [← establishes_eq_ok hc]
    cases c <;> simp
  simp only [← Aliases.mem_origins_iff]
  cases found with
  | some u =>
    obtain ⟨o, ho, hy⟩ := hsome u rfl
    exact ⟨fun _ => ⟨o, ho, (hstep o _ hy).mp rfl⟩, fun _ => rfl⟩
  | none =>
    refine ⟨fun h => (by cases h), ?_⟩
    intro h
    obtain ⟨o, ho, hest⟩ := h
    exact (hstep o _ (hnone rfl o ho)).mpr hest

end Facts

/-- A rule exempts what derives from a value that vouches for it. -/
def Rule.Exempts (r : Rule) (f : Facts) (i : Int) : Prop :=
  ∃ x ∈ r.exemptions, x.kind = .wrapperConversion ∧
    ∃ o, Relation.ReflTransGen f.aliases.Derives i o ∧ f.Establishes x.fact o

theorem Rule.exemptsExpr_eq_ok {r : Rule} {f : Facts} {i : Int} {b : Bool}
    (h : r.exemptsExpr f i = .ok b) : b = true ↔ r.Exempts f i := by
  refine anyM_iff h fun x _ c hc => ?_
  split at hc
  · rename_i hk
    rw [Facts.derivesFrom_eq_ok hc]
    simp [beq_iff_eq.mp hk]
  · rename_i hk
    obtain rfl := Except.ok.inj hc
    refine ⟨fun h => (by cases h), fun h => absurd (beq_iff_eq.mpr h.1) hk⟩

end AccountLint
