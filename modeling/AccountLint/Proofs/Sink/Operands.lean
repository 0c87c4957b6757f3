import AccountLint.Proofs.Rule.Paths
import AccountLint.Sink.Classification

/-! Operands as sinks: which operand a pattern picks, and that every operand that is picked and not
exempt is one sink. -/
namespace AccountLint
namespace SinkPattern

/-- An expression constructs a value of a type that a pattern is about, and sets the field of the
pattern to an operand. -/
structure Sets (p : SinkPattern) (program : Program) (e : Expr) (operand : Int) : Prop where
  kind : e.kind = .construct
  type : ∃ t s, program.type? e.type = .ok (some t) ∧ t.path = .text s ∧
    ∃ target ∈ p.targets, Text.nameMatches target s = true
  field : ∃ k, e.fieldNames.idxOf? p.field = some k ∧ e.operands[k]? = some operand

/-- An expression calls a function that a pattern is about, not as a method, with an operand in
front. -/
structure Passes (p : SinkPattern) (e : Expr) (operand : Int) : Prop where
  kind : e.kind = .call
  receiver : e.receiver = none
  name : ∃ s, e.name = some (.text s) ∧ ∃ target ∈ p.targets, Text.nameMatches target s = true
  first : e.operands.head? = some operand

/-- A search for an operand of an expression finds the only one that is meant, as a sink, or nothing
if there is none. -/
inductive Picks (f : Facts) (c : Category) (b : Int) (e : Expr) (meant : Int → Prop) :
    Option Sink → Prop where
  | nothing (h : ∀ o, ¬meant o) : Picks f c b e meant none
  | operand {o : Int} {s : Sink} (hm : ∀ o', meant o' ↔ o' = o) (hs : operandSink f c b e o = .ok s) :
      Picks f c b e meant (some s)

theorem aims_eq_ok {p : SinkPattern} {f : Facts} {type : Option TypeRef} {b : Bool}
    (h : p.aims f type = .ok b) : b = true ↔ ∃ t s, f.program.type? type = .ok (some t) ∧
      t.path = .text s ∧ ∃ target ∈ p.targets, Text.nameMatches target s = true := by
  obtain ⟨t, ht, h⟩ := bind_eq_ok.mp h
  rw [ht]
  cases t with
  | none =>
    obtain rfl := pure_eq_ok.mp h
    simp
  | some t =>
    rw [matchesAny_eq_ok h]
    simp

private theorem calls_false_eq_ok {p : SinkPattern} {e : Expr} {b : Bool}
    (h : p.calls false e = .ok b) :
    b = true ↔ e.kind = .call ∧ e.receiver = none ∧
      ∃ s, e.name = some (.text s) ∧ ∃ target ∈ p.targets, Text.nameMatches target s = true := by
  unfold calls at h
  by_cases hk : e.kind = .call
  · by_cases hr : e.receiver = none
    · rw [if_neg (by simp [Expr.isMethodCall, hk, hr])] at h
      rw [matchesAny_eq_ok h]
      simp [hk, hr]
    · have hsome : e.receiver.isSome = true := Option.isSome_iff_ne_none.mpr hr
      rw [if_pos (by simp [Expr.isMethodCall, hk, hsome])] at h
      obtain rfl := Except.ok.inj h
      simp [hr]
  · rw [if_pos (by simp [hk])] at h
    obtain rfl := Except.ok.inj h
    simp [hk]

theorem constructSink_picks {p : SinkPattern} {f : Facts} {c : Category} {b : Int} {e : Expr}
    {z : Option Sink} (h : p.constructSink f c (b, e) = .ok z) :
    Picks f c b e (p.Sets f.program e) z := by
  unfold constructSink at h
  simp only at h
  by_cases hk : e.kind = .construct
  · simp only [hk, bne_self_eq_false, Bool.false_eq_true, if_false] at h
    obtain ⟨aimed, ha, h⟩ := bind_eq_ok.mp h
    have haims := aims_eq_ok ha
    cases aimed with
    | false =>
      obtain rfl := pure_eq_ok.mp h
      refine .nothing fun o ho => ?_
      have := haims.mpr ho.type
      cases this
    | true =>
      simp only [Bool.not_true, Bool.false_eq_true, if_false] at h
      split at h
      · rename_i hi
        obtain rfl := pure_eq_ok.mp h
        refine .nothing fun o ho => ?_
        obtain ⟨k, hk, _⟩ := ho.field
        rw [hi] at hk
        cases hk
      · rename_i k hi
        split at h
        · cases h
        · rename_i o ho
          obtain ⟨s, hs, h⟩ := bind_eq_ok.mp h
          obtain rfl := pure_eq_ok.mp h
          refine .operand (o := o) (fun o' => ⟨fun hsets => ?_, fun heq => ?_⟩) hs
          · obtain ⟨j, hj, ho'⟩ := hsets.field
            rw [hi] at hj
            obtain rfl := Option.some.inj hj
            rw [ho] at ho'
            exact (Option.some.inj ho').symm
          · rw [heq]
            exact ⟨hk, haims.mp rfl, k, hi, ho⟩
  · rw [if_pos (by simp [hk])] at h
    obtain rfl := pure_eq_ok.mp h
    exact .nothing fun o ho => hk ho.kind

theorem callArgSink_picks {p : SinkPattern} (hp : p.argument = 0) {f : Facts} {c : Category}
    {b : Int} {e : Expr} {z : Option Sink} (h : p.callArgSink f c (b, e) = .ok z) :
    Picks f c b e (p.Passes e) z := by
  obtain ⟨called, hc, h⟩ := bind_eq_ok.mp h
  have hcalls := calls_false_eq_ok hc
  cases called with
  | false =>
    obtain rfl := pure_eq_ok.mp h
    refine .nothing fun o ho => ?_
    have := hcalls.mpr ⟨ho.kind, ho.receiver, ho.name⟩
    cases this
  | true =>
    obtain ⟨hk, hr, hn⟩ := hcalls.mp rfl
    simp only [Bool.not_true, Bool.false_eq_true, if_false, hp] at h
    cases ho : e.operands with
    | nil =>
      rw [if_pos (by simp [ho])] at h
      obtain rfl := pure_eq_ok.mp h
      refine .nothing fun o hpass => ?_
      have := hpass.first
      rw [ho] at this
      cases this
    | cons o rest =>
      rw [if_neg (by simp [ho])] at h
      rw [show fromEnd? e.operands 0 = some o by simp [fromEnd?, ho]] at h
      obtain ⟨s, hs, h⟩ := bind_eq_ok.mp h
      obtain rfl := pure_eq_ok.mp h
      refine .operand (o := o) (fun o' => ⟨fun hpass => ?_, fun heq => ?_⟩) hs
      · have := hpass.first
        rw [ho] at this
        exact (Option.some.inj this).symm
      · rw [heq]
        exact ⟨hk, hr, hn, by rw [ho]; rfl⟩

theorem operandSink_eq_ok {f : Facts} {c : Category} {b : Int} {e : Expr} {o : Int} {s : Sink}
    (h : operandSink f c b e o = .ok s) :
    s.block = b ∧ s.location = e.location ∧ s.expr = some o ∧ s.unconditional = false ∧
      s.message = "" ∧ ∀ q, q ∈ s.paths ↔ f.pathOf (some o) = .ok (some q) := by
  obtain ⟨path, hpath, h⟩ := bind_eq_ok.mp h
  obtain ⟨text, _, h⟩ := bind_eq_ok.mp h
  obtain ⟨paths, hpaths, h⟩ := bind_eq_ok.mp h
  obtain rfl := pure_eq_ok.mp h
  refine ⟨rfl, rfl, rfl, rfl, rfl, ?_⟩
  intro q
  rw [hpath, AccessPath.setOf_toList hpaths, Option.mem_toList, Except.ok.injEq]

end SinkPattern

namespace Rule

/-- A candidate is kept unless what it is about is exempt. -/
theorem keep?_eq_ok {r : Rule} {f : Facts} {candidate : Except Fault (Option Sink)}
    {z : Option Sink} (h : r.keep? f candidate = .ok z) :
    (candidate = .ok none ∧ z = none) ∨ ∃ s, candidate = .ok (some s) ∧
      ((∃ i, s.expr = some i ∧ r.exemptsExpr f i = .ok true ∧ z = none) ∨
        (∀ i, s.expr = some i → r.exemptsExpr f i = .ok false) ∧ z = some s) := by
  obtain ⟨y, hy, h⟩ := bind_eq_ok.mp h
  cases y with
  | none => exact Or.inl ⟨hy, (pure_eq_ok.mp h).symm⟩
  | some s =>
    refine Or.inr ⟨s, hy, ?_⟩
    cases hs : s.expr with
    | none =>
      simp only [hs] at h
      exact Or.inr ⟨fun i hi => (by cases hi), (pure_eq_ok.mp h).symm⟩
    | some i =>
      simp only [hs] at h
      obtain ⟨exempt, he, h⟩ := bind_eq_ok.mp h
      cases exempt with
      | true => exact Or.inl ⟨i, rfl, he, (pure_eq_ok.mp h).symm⟩
      | false =>
        refine Or.inr ⟨fun j hj => ?_, (pure_eq_ok.mp h).symm⟩
        rw [← Option.some.inj hj]
        exact he

/-- The sinks that are kept are the operands that are meant and not exempt, one each and in the
order of their expressions. -/
theorem keep?_operands {r : Rule} {f : Facts} {c : Category} {meant : Expr → Int → Prop}
    {candidate : Int × Expr → Except Fault (Option Sink)}
    (hpick : ∀ b e z, candidate (b, e) = .ok z → SinkPattern.Picks f c b e (meant e) z)
    {sinks : List Sink} (h : collectM (r.keep? f) (f.located.map candidate) = .ok sinks) :
    ∃ traces : List ((Int × Expr) × Int),
      List.Forall₂ (fun t s => SinkPattern.operandSink f c t.1.1 t.1.2 t.2 = .ok s) traces sinks ∧
      List.Sublist (traces.map Prod.fst) f.located ∧
      ∀ t, t ∈ traces ↔ t.1 ∈ f.located ∧ meant t.1.2 t.2 ∧ r.exemptsExpr f t.2 = .ok false := by
  rw [collectM_map] at h
  refine collectM_traced (P := fun l o => meant l.2 o ∧ r.exemptsExpr f o = .ok false) h ?_ ?_
  · intro l _ hl o ho
    rcases keep?_eq_ok hl with ⟨hc, _⟩ | ⟨s, hc, ⟨i, hi, hex, _⟩ | ⟨_, hz⟩⟩
    · cases hpick _ _ _ hc with
      | nothing hno => exact hno o ho.1
    · cases hpick _ _ _ hc with
      | operand hm hs =>
        rw [(SinkPattern.operandSink_eq_ok hs).2.2.1, ← (hm o).mp ho.1] at hi
        rw [← Option.some.inj hi, ho.2] at hex
        cases hex
    · cases hz
  · intro l _ s hl
    rcases keep?_eq_ok hl with ⟨_, hz⟩ | ⟨s', hc, ⟨_, _, _, hz⟩ | ⟨hex, hz⟩⟩
    · cases hz
    · cases hz
    · obtain rfl := Option.some.inj hz
      cases hpick _ _ _ hc with
      | operand hm hs =>
        refine ⟨_, hs, fun o => ?_⟩
        rw [hm o]
        refine ⟨fun h => h.1, fun h => ⟨h, ?_⟩⟩
        rw [h]
        exact hex _ (SinkPattern.operandSink_eq_ok hs).2.2.1

end Rule
end AccountLint
