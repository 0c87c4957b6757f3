import AccountLint.Proofs.Hardening.Types
import AccountLint.Sink.Classification

/-! Hardening adds no sink: those that do not depend on a bump seed are the same, and of the others
and of those that are exempt some may be left out. -/
namespace AccountLint

/-- The same facts, with the types of another program. -/
def Facts.under (f : Facts) (p : Program) : Facts := { f with program := p }

variable {f : Facts} {p' : Program}

namespace Program.Hardens

private theorem typeOf (h : f.program.Hardens p') (i : Option Int) :
    Alike (Option.Rel TypeDecl.Hardens) (f.typeOf i) ((f.under p').typeOf i) := by
  cases i with
  | none => exact .ok .none
  | some i =>
    unfold Facts.typeOf
    change Alike _ (f.function.expr i >>= _) (f.function.expr i >>= _)
    cases f.function.expr i with
    | error e => exact .error e
    | ok e => exact h.type? e.type

private theorem aims (h : f.program.Hardens p') (q : SinkPattern) (r : Option TypeRef) :
    q.aims (f.under p') r = q.aims f r := by
  refine ((h.type? r).bind_eq fun z z' hz => ?_).symm
  cases hz with
  | none => rfl
  | some ht =>
    dsimp only
    rw [ht.path]

private theorem isConversion (h : f.program.Hardens p') (q : SinkPattern) (e : Expr) :
    q.isConversion (f.under p') e = q.isConversion f e := by
  unfold SinkPattern.isConversion
  refine ite_congr rfl (fun _ => rfl) fun _ => bind_congr fun named => ?_
  refine ite_congr rfl (fun _ => rfl) fun _ => ?_
  refine ((h.typeOf e.receiver).bind_eq fun z z' hz => ?_).symm
  cases hz with
  | none => rfl
  | some ht =>
    dsimp only
    rw [ht.path]

private theorem constructSink (h : f.program.Hardens p') (q : SinkPattern) (c : Category)
    (l : Int × Expr) :
    q.constructSink (f.under p') c l = q.constructSink f c l := by
  unfold SinkPattern.constructSink
  dsimp only
  rw [h.aims]
  rfl

private theorem useSink (h : f.program.Hardens p') (q : SinkPattern) (c : Category)
    (l : Int × Expr) :
    q.useSink (f.under p') c l = q.useSink f c l := by
  unfold SinkPattern.useSink
  dsimp only
  rw [h.aims, h.isConversion]
  rfl

private theorem contextSink (h : f.program.Hardens p') (q : SinkPattern) (c : Category) :
    q.contextSink (f.under p') c = q.contextSink f c := by
  unfold SinkPattern.contextSink
  simp only [h.aims]
  rfl

private theorem borrow? (h : f.program.Hardens p') (q : SinkPattern) (l : Int × Expr) :
    q.borrow? (f.under p') l = q.borrow? f l := by
  have hinner : (f.under p').program.innerType l.2.type = f.program.innerType l.2.type :=
    h.innerType l.2.type
  unfold SinkPattern.borrow?
  dsimp only
  rw [h.aims, hinner]
  rfl

private theorem borrowPairs (h : f.program.Hardens p') (q : SinkPattern) :
    q.borrowPairs (f.under p') = q.borrowPairs f := by
  have hstep : q.borrow? (f.under p') = q.borrow? f := funext (h.borrow? q)
  unfold SinkPattern.borrowPairs
  rw [hstep]
  rfl

private theorem resultName (h : f.program.Hardens p') (e : Expr) :
    SinkPattern.resultName (f.under p') e = SinkPattern.resultName f e := by
  have hunwrap : (f.under p').program.unwrap resultWrappers e.type =
      f.program.unwrap resultWrappers e.type := h.unwrap resultWrappers e.type
  unfold SinkPattern.resultName
  rw [hunwrap]
  cases f.program.unwrap resultWrappers e.type with
  | error e => rfl
  | ok r =>
    refine ((h.type? r).bind_eq fun z z' hz => ?_).symm
    cases hz with
    | none => rfl
    | some ht => exact ht.declName.symm

private theorem typedCallSink (h : f.program.Hardens p') (q : SinkPattern) (c : Category)
    (l : Int × Expr) :
    q.typedCallSink (f.under p') c l = q.typedCallSink f c l := by
  unfold SinkPattern.typedCallSink
  dsimp only
  rw [h.resultName]

private theorem wants {t t' : TypeDecl} (ht : t.Hardens t') (q : SinkPattern) (e : Expr) :
    q.wants (f.under p') t' e = q.wants f t e := by
  unfold SinkPattern.wants
  rw [ht.hasTrait]
  rfl

private theorem deserializeSink (h : f.program.Hardens p') (q : SinkPattern) (c : Category)
    (l : Int × Expr) : q.deserializeSink (f.under p') c l = q.deserializeSink f c l := by
  have hunwrap : (f.under p').program.unwrap resultWrappers l.2.type =
      f.program.unwrap resultWrappers l.2.type := h.unwrap resultWrappers l.2.type
  unfold SinkPattern.deserializeSink
  dsimp only
  rw [hunwrap]
  refine bind_congr fun called => ite_congr rfl (fun _ => rfl) fun _ => bind_congr fun r => ?_
  split
  · refine ((h.type? _).bind_eq fun z z' hz => ?_).symm
    cases hz with
    | none => rfl
    | some ht =>
      dsimp only
      rw [ht.declName]
      rw [wants ht]
  · rfl

/-- Only derivations from bump seeds depend on what declarations are hardened with. -/
theorem candidates (h : f.program.Hardens p') {q : SinkPattern} (hq : q.kind ≠ .seedBump)
    (c : Category) : q.candidates (f.under p') c = q.candidates f c := by
  unfold SinkPattern.candidates
  cases hk : q.kind
  case constructField => exact List.map_congr_left fun l _ => h.constructSink q c l
  case typedUse =>
    exact congrArg (SinkPattern.firstUses []) (List.map_congr_left fun l _ => h.useSink q c l)
  case contextFunction => exact congrArg (fun z => [z]) (h.contextSink q c)
  case mutableBorrowPair =>
    dsimp only
    rw [h.borrowPairs]
  case typedCall => exact List.map_congr_left fun l _ => h.typedCallSink q c l
  case seedBump => exact absurd hk hq
  case deserialize => exact List.map_congr_left fun l _ => h.deserializeSink q c l
  all_goals rfl

private theorem declaresBump (h : f.program.Hardens p') (i : Int) :
    Agree (· ≤ ·) (f.declaresBump i) ((f.under p').declaresBump i) := by
  unfold Facts.declaresBump
  refine .bind_self fun e _ => ?_
  split
  · refine .bind_self fun r _ => (h.structBehind r.type).agree.bind fun z z' hz => ?_
    cases hz with
    | none => exact .ok (Bool.le_refl false)
    | some ht =>
      have hfield := ht.fieldNamed? (AccessPath.stepOf e.name)
      dsimp only
      generalize TypeDecl.fieldNamed? _ _ = d at hfield ⊢
      generalize TypeDecl.fieldNamed? _ _ = d' at hfield ⊢
      cases hfield with
      | none => exact .ok (Bool.le_refl false)
      | some hd =>
        refine .ok fun hb => ?_
        exact List.contains_iff_mem.mpr (hd.constraints (List.contains_iff_mem.mp hb))
  · exact .ok (Bool.le_refl false)

private theorem bumpHolder (h : f.program.Hardens p') {owner owner' : TypeDecl}
    (ho : owner.Hardens owner') (r : Option TypeRef) :
    (f.under p').bumpHolder owner' r = f.bumpHolder owner r := by
  refine ((h.type? r).bind_eq fun z z' hz => ?_).symm
  rw [ho.hasTrait]
  cases hz with
  | none => rfl
  | some ht =>
    dsimp only
    rw [ht.path]

private theorem bumpStep (h : f.program.Hardens p') (i : Int) :
    Agree (fun z z' => z' = z ∨ z' = some .constrained) (f.bumpStep i) ((f.under p').bumpStep i) := by
  unfold Facts.bumpStep
  refine .bind_self fun e _ => ?_
  split
  · refine (h.declaresBump _).bind_le (fun _ => .of_right fun _ => Or.inr rfl) ?_
    refine .bind_self fun r _ => (h.structBehind r.type).agree.bind fun z z' hz => ?_
    cases hz with
    | none => exact .ok (Or.inl rfl)
    | some ho =>
      dsimp only
      rw [h.bumpHolder ho]
      exact .of_eq rfl fun z => Or.inl rfl
  · exact .ok (Or.inl rfl)

/-- Origins are looked at in the same order, perhaps with an end before the others. -/
theorem firstOrigin {β : Type} {L : Option β → Option β → Prop} (hnone : L none none)
    (hmiss : ∀ b, ¬L (some b) none) (hearly : ∀ c, L none (some c) → ∀ z, L z (some c))
    {step step' : Int → Except Fault (Option β)} (h : ∀ i, Agree L (step i) (step' i)) (i : Int) :
    Agree L (f.firstOrigin step i) ((f.under p').firstOrigin step' i) := by
  have horigins : (f.under p').aliases.origins i = f.aliases.origins i := rfl
  unfold Facts.firstOrigin
  rw [horigins]
  obtain ⟨is, fault⟩ := f.aliases.origins i
  -- a fault behind the origins counts only where no origin had a result
  refine (Agree.firstM hnone hmiss hearly h).bind fun z z' hz => ?_
  match z, z' with
  | none, none =>
    cases fault with
    | none => exact .ok hnone
    | some e =>
      intro w w' hw
      cases hw
  | some b, none => exact absurd hz (hmiss b)
  | some b, some c => exact .ok hz
  | none, some c => exact .of_right (hearly c hz)

private theorem bumpOrigin (h : f.program.Hardens p') (i : Int) :
    Agree (fun o o' => o' = o ∨ o' = .constrained) (f.bumpOrigin i) ((f.under p').bumpOrigin i) := by
  unfold Facts.bumpOrigin
  refine (firstOrigin (Or.inl rfl) ?_ ?_ h.bumpStep i).bind fun z z' hz => ?_
  · intro b hb
    rcases hb with hb | hb <;> cases hb
  · intro c hc z
    rcases hc with hc | hc
    · cases hc
    · exact Or.inr hc
  · rcases hz with rfl | rfl
    · exact .ok (Or.inl rfl)
    · exact .ok (Or.inr rfl)

/-- A derivation from a bump seed is the same sink, or none any more. -/
theorem bumpSink (h : f.program.Hardens p') (q : SinkPattern) (c : Category) (l : Int × Expr) :
    Agree (fun z z' => z' = z ∨ z' = none) (q.bumpSink f c l) (q.bumpSink (f.under p') c l) := by
  unfold SinkPattern.bumpSink
  dsimp only
  refine .bind_self fun called _ => ?_
  split
  · exact .ok (Or.inl rfl)
  · split
    · exact .ok (Or.inl rfl)
    · refine .bind_self fun bump _ => ?_
      split
      · exact .ok (Or.inl rfl)
      · refine (h.bumpOrigin _).bind fun o o' ho => ?_
        rcases ho with rfl | rfl
        · exact .of_eq rfl fun z => Or.inl rfl
        · exact .of_right fun _ => Or.inr rfl

private theorem establishes (h : f.program.Hardens p') (fact : String) (i : Int) :
    Agree (· ≤ ·) (f.establishes fact i) ((f.under p').establishes fact i) := by
  have htype : ∀ j, Agree (· ≤ ·) (f.typeOf j >>= (hasFact · fact))
      ((f.under p').typeOf j >>= (hasFact · fact)) := by
    intro j
    exact (h.typeOf j).agree.bind fun z z' hz => hasFact_agree hz fact
  unfold Facts.establishes
  refine .bind_self fun e _ => ?_
  split
  · refine (h.typeOf e.receiver).agree.bind fun z z' hz => ?_
    exact (hasFact_agree hz fact).orElse (htype (some i))
  · exact htype (some i)

private theorem derivesFrom (h : f.program.Hardens p') (fact : String) (i : Int) :
    Agree (· ≤ ·) (f.derivesFrom fact i) ((f.under p').derivesFrom fact i) := by
  unfold Facts.derivesFrom
  have hstep : ∀ o, Agree (fun z z' => z.isSome ≤ z'.isSome)
      (do return if ← f.establishes fact o then some () else none)
      (do return if ← (f.under p').establishes fact o then some () else none) := by
    intro o
    exact (h.establishes fact o).bind_le (fun _ => .of_right fun _ => Bool.le_true _)
      (.ok (Bool.le_refl _))
  refine (firstOrigin (Bool.le_refl _) ?_ ?_ hstep i).bind fun z z' hz => .ok hz
  · intro b hb
    exact absurd (hb rfl) (by simp)
  · intro c _ z
    exact Bool.le_true _

private theorem isMarker (h : f.program.Hardens p') (i : Int) :
    (f.under p').isMarker i = f.isMarker i := by
  refine ((h.typeOf (some i)).bind_eq fun z z' hz => ?_).symm
  cases hz with
  | none => rfl
  | some ht =>
    dsimp only
    rw [ht.kind, ht.length]
    rfl

private theorem exemptsFunction (h : f.program.Hardens p') (r : Rule) :
    r.exemptsFunction (f.under p') = r.exemptsFunction f := by
  have hmarker : (f.under p').isMarker = f.isMarker := funext h.isMarker
  have hstep : (f.under p').markerStep = f.markerStep := by
    unfold Facts.markerStep
    rw [hmarker]
    rfl
  unfold Rule.exemptsFunction Facts.marksClosed
  rw [hstep]
  rfl

private theorem exemptsExpr (h : f.program.Hardens p') (r : Rule) (i : Int) :
    Agree (· ≤ ·) (r.exemptsExpr f i) (r.exemptsExpr (f.under p') i) := by
  refine .anyM fun x => ?_
  split
  · exact h.derivesFrom x.fact i
  · exact .ok (Bool.le_refl false)

private theorem keep? (h : f.program.Hardens p') (r : Rule) {y y' : Except Fault (Option Sink)}
    (hy : Agree (fun z z' => z' = z ∨ z' = none) y y') :
    Agree (fun z z' => z' = z ∨ z' = none) (r.keep? f y) (r.keep? (f.under p') y') := by
  unfold Rule.keep?
  refine hy.bind fun z z' hz => ?_
  rcases hz with rfl | rfl
  · cases z' with
    | none => exact .ok (Or.inl rfl)
    | some s =>
      dsimp only
      split
      · exact .ok (Or.inl rfl)
      · exact (h.exemptsExpr r _).bind_le (fun _ => .of_right fun _ => Or.inr rfl)
          (.ok (Or.inl rfl))
  · exact .of_right fun _ => Or.inr rfl

/-- Each candidate is the same, or none any more. -/
theorem candidates_agree (h : f.program.Hardens p') (q : SinkPattern) (c : Category) :
    List.Forall₂ (Agree fun z z' => z' = z ∨ z' = none) (q.candidates f c)
      (q.candidates (f.under p') c) := by
  by_cases hq : q.kind = .seedBump
  · unfold SinkPattern.candidates
    rw [hq]
    refine List.rel_map (fun l l' hl => ?_) (List.forall₂_same.mpr fun l _ => rfl)
    exact hl ▸ h.bumpSink q c l
  · rw [h.candidates hq]
    exact List.forall₂_same.mpr fun z _ => .of_eq rfl fun _ => Or.inl rfl

theorem sinksIn (h : f.program.Hardens p') (r : Rule) :
    Agree (Thins id) (r.sinksIn f) (r.sinksIn (f.under p')) := by
  unfold Rule.sinksIn
  rw [h.exemptsFunction]
  refine .bind_self fun exempt _ => ?_
  split
  · exact .ok (.refl [])
  · refine .concatM (.refl []) Thins.append (List.forall₂_same.mpr fun q _ => ?_)
    refine .collectM (.refl []) Thins.append ((h.candidates_agree q r.category).imp ?_)
    intro y y' hy
    exact (h.keep? r hy).mono fun z z' hz => .of_left_out hz

/-- A rule without exemptions and without bump seeds has the same sinks. -/
theorem sinksIn_eq (h : f.program.Hardens p') {r : Rule} (hexempt : r.exemptions = [])
    (hkinds : ∀ q ∈ r.sinks, q.kind ≠ .seedBump) :
    Agree Eq (r.sinksIn f) (r.sinksIn (f.under p')) := by
  have hkeep : r.keep? (f.under p') = r.keep? f := by
    unfold Rule.keep? Rule.exemptsExpr
    rw [hexempt]
    rfl
  unfold Rule.sinksIn
  rw [h.exemptsFunction, hkeep]
  refine .bind_self fun exempt _ => ?_
  split
  · exact .ok rfl
  · refine .concatM rfl (fun hs hs' => by rw [hs, hs']) (List.forall₂_same.mpr fun q hq => ?_)
    rw [h.candidates (hkinds q hq)]
    exact .of_eq rfl fun _ => rfl

end Program.Hardens

/-- A rule about functions with a context has sinks that are about no places. -/
theorem Rule.paths_of_mem_sinksIn {r : Rule} (hr : ∀ q ∈ r.sinks, q.kind = .contextFunction)
    {ss : List Sink} (h : r.sinksIn f = .ok ss) {s : Sink} (hs : s ∈ ss) : s.paths = [] := by
  obtain ⟨exempt, _, h⟩ := bind_eq_ok.mp h
  split at h
  · rw [← pure_eq_ok.mp h] at hs
    cases hs
  · obtain ⟨q, hq, zs, hzs, hs⟩ := (mem_concatM h).mp hs
    obtain ⟨y, hy, hkeep⟩ := (mem_collectM hzs).mp hs
    obtain ⟨z, rfl, hkeep⟩ := bind_eq_ok.mp hkeep
    unfold SinkPattern.candidates at hy
    rw [hr q hq, List.mem_singleton] at hy
    obtain ⟨param, _, hz⟩ := bind_eq_ok.mp hy.symm
    cases param with
    | none =>
      rw [← pure_eq_ok.mp hz] at hkeep
      cases pure_eq_ok.mp hkeep
    | some param =>
      rw [← pure_eq_ok.mp hz] at hkeep
      rw [← Option.some.inj (pure_eq_ok.mp hkeep)]

end AccountLint
