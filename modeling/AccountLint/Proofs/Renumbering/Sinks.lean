import AccountLint.Proofs.Renumbering.Groups
import AccountLint.Proofs.Renumbering.Guards
import AccountLint.Sink.Classification

/-! The sinks of a function do not depend on the numbering of types, but for the numbers of the
types that they deserialize and for the order of pairs of borrows. -/
namespace AccountLint

variable {ρ : Equiv.Perm Int} {f : Facts} {p' : Program}

namespace Facts

variable (f)

private theorem firstOrigin_renumber {β : Type} (step : Int → Except Fault (Option β)) (i : Int) :
    (f.renumber ρ p').firstOrigin step i = f.firstOrigin step i := by
  unfold firstOrigin
  rw [f.aliases_renumber, f.aliases.origins_renumber]

private theorem source_renumber (i : Int) :
    (f.renumber ρ p').source i = (f.source i).map (Expr.renumber ρ) := by
  unfold source
  rw [f.aliases_renumber, f.aliases.originList_renumber, exceptMap_bind]
  exact bind_congr fun is => f.expr_renumber _

private theorem bumpOf_renumber (seeds : Int) :
    (f.renumber ρ p').bumpOf seeds = f.bumpOf seeds := by
  unfold bumpOf
  simp only [f.source_renumber, bind_exceptMap]
  rfl

end Facts

namespace Program.Renumbers

variable (h : f.program.Renumbers ρ p')
include h

private theorem establishes (fact : String) (i : Int) :
    (f.renumber ρ p').establishes fact i = f.establishes fact i := by
  unfold Facts.establishes
  simp only [f.expr_renumber, f.typeOf_renumber h, bind_exceptMap, hasFact_renumber]
  rfl

private theorem derivesFrom (fact : String) (i : Int) :
    (f.renumber ρ p').derivesFrom fact i = f.derivesFrom fact i := by
  unfold Facts.derivesFrom
  simp only [f.firstOrigin_renumber, h.establishes]

private theorem isMarker (i : Int) : (f.renumber ρ p').isMarker i = f.isMarker i := by
  unfold Facts.isMarker
  simp only [f.expr_renumber, f.typeOf_renumber h, bind_exceptMap]
  refine bind_congr fun t => ?_
  cases t <;> rfl

private theorem marksClosed : (f.renumber ρ p').marksClosed = f.marksClosed := by
  have hstep : ∀ found b e, (f.renumber ρ p').markerStep found (b, e.renumber ρ) =
      f.markerStep found (b, e) := by
    intro found b e
    unfold Facts.markerStep
    rw [show (f.renumber ρ p').isMarker = f.isMarker from funext h.isMarker]
    simp only [f.pathOf_renumber]
    rfl
  unfold Facts.marksClosed
  refine congrArg (· >>= _) ?_
  change (f.located.map _).foldlM _ _ = _
  rw [List.foldlM_map]
  exact congrArg (fun step => f.located.foldlM step (false, false))
    (funext fun found => funext fun l => hstep found l.1 l.2)

private theorem exemptsFunction (r : Rule) :
    r.exemptsFunction (f.renumber ρ p') = r.exemptsFunction f := by
  unfold Rule.exemptsFunction
  rw [h.marksClosed]

private theorem exemptsExpr (r : Rule) (i : Int) :
    r.exemptsExpr (f.renumber ρ p') i = r.exemptsExpr f i := by
  unfold Rule.exemptsExpr
  simp only [h.derivesFrom]

private theorem declaresBump (i : Int) : (f.renumber ρ p').declaresBump i = f.declaresBump i := by
  unfold Facts.declaresBump
  refine bind_of_exceptMap (f.source_renumber _) fun e => ?_
  rw [e.kind_renumber, e.receiver_renumber]
  split
  · refine bind_of_exceptMap (f.expr_renumber _) fun r => ?_
    refine bind_of_exceptMap (h.structBehind r.type) fun z => ?_
    cases z with
    | none => rfl
    | some owner =>
      dsimp only [Option.map_some]
      rw [owner.fieldNamed?_renumber, Option.any_map]
      rfl
  · rfl

private theorem bumpHolder (owner : TypeDecl) (r : Option TypeRef) :
    (f.renumber ρ p').bumpHolder (owner.renumber ρ) (r.map (TypeRef.renumber ρ)) =
      f.bumpHolder owner r := by
  unfold Facts.bumpHolder
  refine bind_of_exceptMap (h.type? r) fun z => ?_
  cases z <;> rfl

private theorem bumpStep (i : Int) : (f.renumber ρ p').bumpStep i = f.bumpStep i := by
  unfold Facts.bumpStep
  refine bind_of_exceptMap (f.expr_renumber _) fun e => ?_
  rw [e.kind_renumber, e.receiver_renumber]
  split
  · rw [h.declaresBump]
    refine bind_congr fun declared => ite_congr rfl (fun _ => rfl) fun _ => ?_
    refine bind_of_exceptMap (f.expr_renumber _) fun r => ?_
    refine bind_of_exceptMap (h.structBehind r.type) fun z => ?_
    cases z with
    | none => rfl
    | some owner => exact congrArg (· >>= _) (h.bumpHolder owner r.type)
  · rfl

private theorem bumpOrigin (i : Int) : (f.renumber ρ p').bumpOrigin i = f.bumpOrigin i := by
  unfold Facts.bumpOrigin
  rw [f.firstOrigin_renumber, show (f.renumber ρ p').bumpStep = f.bumpStep from funext h.bumpStep]

end Program.Renumbers

theorem AccessPath.display_endsRun (q : AccessPath) : Safe Fault.EndsRun q.display := by
  unfold display
  cases (q.root :: q.projections).mapM Value.text? with
  | none => rfl
  | some parts => trivial

private theorem AccessPath.setOf_endsRun (qs : List AccessPath) :
    Safe Fault.EndsRun (setOf qs) := by
  unfold setOf
  split
  · trivial
  · rfl

def Sink.renumber (ρ : Equiv.Perm Int) (s : Sink) : Sink := { s with type := s.type.map ρ }

def renumberCandidate (ρ : Equiv.Perm Int) : Except Fault (Option Sink) → Except Fault (Option Sink) :=
  Except.map (Option.map (Sink.renumber ρ))

namespace SinkPattern

variable (q : SinkPattern) (c : Category)

private theorem callSink_renumber (b : Int) (e : Expr) :
    q.callSink c (b, e.renumber ρ) = renumberCandidate ρ (q.callSink c (b, e)) := by
  unfold callSink renumberCandidate
  rw [exceptMap_bind]
  refine bind_congr fun called => ?_
  cases called <;> rfl

private theorem operandSink_renumber (b : Int) (e : Expr) (operand : Int) :
    (do return some (← operandSink (f.renumber ρ p') c b (e.renumber ρ) operand)) =
      renumberCandidate ρ (do return some (← operandSink f c b e operand)) := by
  unfold operandSink renumberCandidate
  simp only [f.pathOf_renumber, bind_assoc, exceptMap_bind]
  rfl

private theorem callArgSink_renumber (b : Int) (e : Expr) :
    q.callArgSink (f.renumber ρ p') c (b, e.renumber ρ) =
      renumberCandidate ρ (q.callArgSink f c (b, e)) := by
  unfold callArgSink renumberCandidate
  rw [exceptMap_bind]
  refine bind_congr fun called => ?_
  simp only [exceptMap_ite]
  refine ite_congr rfl (fun _ => rfl) fun _ => ite_congr rfl (fun _ => rfl) fun _ => ?_
  rw [e.operands_renumber]
  cases fromEnd? e.operands q.argument with
  | none => rfl
  | some operand => exact operandSink_renumber c b e operand

private theorem zeroSink_renumber (root : Int × Stmt) :
    q.zeroSink (f.renumber ρ p') c root = renumberCandidate ρ (q.zeroSink f c root) := by
  unfold zeroSink renumberCandidate
  dsimp only
  split
  · simp only [f.isZero_renumber, f.targetPath_renumber, exceptMap_bind, exceptMap_ite]
    refine bind_congr fun zero => ite_congr rfl (fun _ => rfl) fun _ => bind_congr fun z => ?_
    cases z with
    | none => rfl
    | some path =>
      dsimp only
      split
      · simp only [exceptMap_bind, exceptMap_ite]
        rfl
      · rfl
  · rfl

private theorem readsData_renumber (e : Expr) :
    readsData (f.renumber ρ p') (e.renumber ρ) = readsData f e := by
  unfold readsData
  simp only [f.pathOf_renumber]
  rfl

/-- Which uses are the first ones is told by their places. -/
theorem firstUses_renumber (seen : List AccessPath) (zs : List (Except Fault (Option Sink))) :
    firstUses seen (zs.map (renumberCandidate ρ)) = (firstUses seen zs).map (renumberCandidate ρ) := by
  induction zs generalizing seen with
  | nil => rfl
  | cons z zs ih =>
    rcases z with e | _ | s
    · exact congrArg (_ :: ·) (ih seen)
    · exact congrArg (_ :: ·) (ih seen)
    · change (if s.paths.any fun p => seen.any (·.same p) then _ else _) =
        List.map _ (if s.paths.any fun p => seen.any (·.same p) then _ else _)
      split
      · exact ih seen
      · exact congrArg (_ :: ·) (ih (s.paths ++ seen))

def Borrow.renumber (ρ : Equiv.Perm Int) (b : Borrow) : Borrow :=
  { b with
    expr := b.expr.renumber ρ
    inner := b.inner.renumber ρ }

@[simp] theorem Borrow.inner_renumber (b : Borrow) :
    (b.renumber ρ).inner = b.inner.renumber ρ := rfl

private theorem firstBorrows_renumber (bs : List Borrow) :
    firstBorrows (bs.map (Borrow.renumber ρ)) = (firstBorrows bs).map (Borrow.renumber ρ) := by
  unfold firstBorrows
  rw [List.foldl_map]
  change List.foldl _ (([] : List Borrow).map (Borrow.renumber ρ)) bs = _
  refine List.foldl_hom (List.map (Borrow.renumber ρ)) fun kept b => ?_
  have htest : ((kept.map (Borrow.renumber ρ)).any fun k =>
      k.inner == (b.renumber ρ).inner && k.path.same (b.renumber ρ).path) =
        kept.any fun k => k.inner == b.inner && k.path.same b.path := by
    rw [List.any_map]
    refine congrArg (fun test => kept.any test) (funext fun k => ?_)
    exact congrArg (· && _) (TypeRef.renumber_injective ρ).beq_eq
  rw [htest]
  split
  · rfl
  · rw [List.map_append, List.map_singleton]

/-- The sink of a pair of borrows does not depend on their types. -/
theorem pairSink_renumber (pair : Borrow × Borrow) :
    pairSink c (Prod.map (Borrow.renumber ρ) (Borrow.renumber ρ) pair) =
      renumberCandidate ρ (pairSink c pair) := by
  unfold pairSink renumberCandidate
  simp only [exceptMap_bind]
  rfl

/-- A pair of borrows is a sink of its own and of no expression. Where there is no sink, the run
ends. -/
theorem pairSink_endsRun (pair : Borrow × Borrow) :
    Yields Fault.EndsRun (fun z => ∀ s, z = some s → s.expr = none) (pairSink c pair) := by
  unfold pairSink
  refine (AccessPath.display_endsRun _).bind fun _ _ => (AccessPath.display_endsRun _).bind fun _ _ => ?_
  refine (AccessPath.setOf_endsRun _).bind fun _ _ s hs => ?_
  rw [← Option.some.inj hs]

end SinkPattern

namespace Program.Renumbers

variable (h : f.program.Renumbers ρ p')
include h

private theorem aims (q : SinkPattern) (r : Option TypeRef) :
    q.aims (f.renumber ρ p') (r.map (TypeRef.renumber ρ)) = q.aims f r := by
  unfold SinkPattern.aims
  refine bind_of_exceptMap (h.type? r) fun z => ?_
  cases z <;> rfl

private theorem isConversion (q : SinkPattern) (e : Expr) :
    q.isConversion (f.renumber ρ p') (e.renumber ρ) = q.isConversion f e := by
  unfold SinkPattern.isConversion
  refine ite_congr rfl (fun _ => rfl) fun _ => bind_congr fun named => ?_
  refine ite_congr rfl (fun _ => rfl) fun _ => ?_
  refine bind_of_exceptMap (f.typeOf_renumber h _) fun z => ?_
  cases z <;> rfl

private theorem constructSink (q : SinkPattern) (c : Category) (b : Int) (e : Expr) :
    q.constructSink (f.renumber ρ p') c (b, e.renumber ρ) =
      renumberCandidate ρ (q.constructSink f c (b, e)) := by
  unfold SinkPattern.constructSink renumberCandidate
  dsimp only
  rw [e.type_renumber, h.aims]
  simp only [exceptMap_bind, exceptMap_ite]
  refine ite_congr rfl (fun _ => rfl) fun _ => bind_congr fun aimed => ?_
  refine ite_congr rfl (fun _ => rfl) fun _ => ?_
  rw [e.operands_renumber, e.fieldNames_renumber]
  cases e.fieldNames.idxOf? q.field with
  | none => rfl
  | some i =>
    dsimp only
    cases e.operands[i]? with
    | none => rfl
    | some operand => exact SinkPattern.operandSink_renumber c b e operand

private theorem useSink (q : SinkPattern) (c : Category) (b : Int) (e : Expr) :
    q.useSink (f.renumber ρ p') c (b, e.renumber ρ) =
      renumberCandidate ρ (q.useSink f c (b, e)) := by
  unfold SinkPattern.useSink renumberCandidate
  dsimp only
  rw [e.type_renumber, h.aims, h.isConversion]
  simp only [f.pathOf_renumber, exceptMap_bind, exceptMap_ite]
  rfl

private theorem contextSink (q : SinkPattern) (c : Category) :
    q.contextSink (f.renumber ρ p') c = renumberCandidate ρ (q.contextSink f c) := by
  have hfirst : firstM (fun a : Param => do
      return if ← q.aims (f.renumber ρ p') a.type then some a else none)
        (f.function.params.map (Param.renumber ρ)) =
      (firstM (fun a : Param => do return if ← q.aims f a.type then some a else none)
        f.function.params).map (Option.map (Param.renumber ρ)) := by
    refine firstM_exceptMap (fun a => ?_) f.function.params
    rw [exceptMap_bind]
    refine (congrArg (· >>= _) (h.aims q a.type)).trans (bind_congr fun aimed => ?_)
    cases aimed <;> rfl
  unfold SinkPattern.contextSink renumberCandidate
  refine exceptMap_bind_of_exceptMap hfirst fun z => ?_
  cases z <;> rfl

private theorem resultName (e : Expr) :
    SinkPattern.resultName (f.renumber ρ p') (e.renumber ρ) = SinkPattern.resultName f e := by
  unfold SinkPattern.resultName
  refine bind_of_exceptMap (h.unwrap resultWrappers e.type) fun r => ?_
  refine bind_of_exceptMap (h.type? r) fun z => ?_
  cases z <;> rfl

private theorem typedCallSink (q : SinkPattern) (c : Category) (b : Int) (e : Expr) :
    q.typedCallSink (f.renumber ρ p') c (b, e.renumber ρ) =
      renumberCandidate ρ (q.typedCallSink f c (b, e)) := by
  unfold SinkPattern.typedCallSink renumberCandidate
  dsimp only
  rw [h.resultName]
  simp only [exceptMap_bind, exceptMap_ite]
  rfl

private theorem bumpSink (q : SinkPattern) (c : Category) (b : Int) (e : Expr) :
    q.bumpSink (f.renumber ρ p') c (b, e.renumber ρ) =
      renumberCandidate ρ (q.bumpSink f c (b, e)) := by
  unfold SinkPattern.bumpSink renumberCandidate
  dsimp only
  rw [e.operands_renumber, exceptMap_bind]
  refine bind_congr fun called => ?_
  rw [exceptMap_ite]
  refine ite_congr rfl (fun _ => rfl) fun _ => ?_
  cases e.operands with
  | nil => rfl
  | cons seeds rest =>
    dsimp only
    rw [f.bumpOf_renumber, exceptMap_bind]
    refine bind_congr fun z => ?_
    cases z with
    | none => rfl
    | some bump =>
      simp only [h.bumpOrigin, f.pathOf_renumber, exceptMap_bind, exceptMap_ite]
      rfl

private theorem deserializeSink (q : SinkPattern) (c : Category) (b : Int) (e : Expr) :
    q.deserializeSink (f.renumber ρ p') c (b, e.renumber ρ) =
      renumberCandidate ρ (q.deserializeSink f c (b, e)) := by
  have hwants : ∀ t, q.wants (f.renumber ρ p') (t.renumber ρ) (e.renumber ρ) = q.wants f t e := by
    intro t
    unfold SinkPattern.wants
    rw [SinkPattern.readsData_renumber]
    rfl
  unfold SinkPattern.deserializeSink renumberCandidate
  dsimp only
  rw [exceptMap_bind]
  refine bind_congr fun called => ?_
  rw [exceptMap_ite]
  refine ite_congr rfl (fun _ => rfl) fun _ => ?_
  refine exceptMap_bind_of_exceptMap (h.unwrap resultWrappers e.type) fun r => ?_
  rcases r with _ | i | name
  · rfl
  · refine exceptMap_bind_of_exceptMap (h.type? (some (.index i))) fun z => ?_
    cases z with
    | none => rfl
    | some t =>
      dsimp only [Option.map_some]
      rw [hwants]
      simp only [exceptMap_bind, exceptMap_ite]
      rfl
  · rfl

private theorem borrow? (q : SinkPattern) (b : Int) (e : Expr) :
    q.borrow? (f.renumber ρ p') (b, e.renumber ρ) =
      (q.borrow? f (b, e)).map (Option.map (SinkPattern.Borrow.renumber ρ)) := by
  unfold SinkPattern.borrow?
  dsimp only
  rw [e.type_renumber, h.aims, exceptMap_ite, exceptMap_bind]
  refine ite_congr rfl (fun _ => rfl) fun _ => bind_congr fun aimed => ?_
  rw [exceptMap_ite, exceptMap_bind]
  refine ite_congr rfl (fun _ => rfl) fun _ => ?_
  refine bind_of_exceptMap (h.innerType e.type) fun inner => ?_
  rw [f.pathOf_renumber, exceptMap_bind]
  refine bind_congr fun path => ?_
  cases inner <;> cases path <;> rfl

private theorem borrowPairs (q : SinkPattern) :
    Alike (fun found found' => found'.Perm (found.map
        (Prod.map (SinkPattern.Borrow.renumber ρ) (SinkPattern.Borrow.renumber ρ))))
      (q.borrowPairs f) (q.borrowPairs (f.renumber ρ p')) := by
  unfold SinkPattern.borrowPairs
  have hborrows : collectM (q.borrow? (f.renumber ρ p')) (f.renumber ρ p').located =
      (collectM (q.borrow? f) f.located).map (List.map (SinkPattern.Borrow.renumber ρ)) :=
    collectM_exceptMap (k := fun l : Int × Expr => (l.1, l.2.renumber ρ))
      (fun l => h.borrow? q l.1 l.2) f.located
  rw [hborrows, bind_exceptMap]
  refine Alike.bind_self fun bs => ?_
  rw [SinkPattern.firstBorrows_renumber]
  exact (sorted_pairs_renumber SinkPattern.Borrow.inner_renumber _).bind fun ts ts' hperm => .ok hperm

private theorem keep? (r : Rule) (z : Except Fault (Option Sink)) :
    r.keep? (f.renumber ρ p') (renumberCandidate ρ z) = renumberCandidate ρ (r.keep? f z) := by
  unfold Rule.keep? renumberCandidate
  rw [bind_exceptMap, exceptMap_bind]
  refine bind_congr fun z => ?_
  cases z with
  | none => rfl
  | some s =>
    dsimp only [Option.map_some]
    rw [show (s.renumber ρ).expr = s.expr from rfl]
    cases s.expr with
    | none => rfl
    | some i =>
      dsimp only
      rw [h.exemptsExpr, exceptMap_bind]
      simp only [exceptMap_ite]
      rfl

/-- Candidates for sinks that are no pairs of borrows are the same but for the numbers of types. -/
theorem candidates (q : SinkPattern) (hkind : q.kind ≠ .mutableBorrowPair) (c : Category) :
    q.candidates (f.renumber ρ p') c = (q.candidates f c).map (renumberCandidate ρ) := by
  have hlocated : ∀ {step step' : Int × Expr → Except Fault (Option Sink)},
      (∀ b e, step' (b, e.renumber ρ) = renumberCandidate ρ (step (b, e))) →
        (f.renumber ρ p').located.map step' = (f.located.map step).map (renumberCandidate ρ) := by
    intro step step' hstep
    change (f.located.map _).map step' = _
    rw [List.map_map, List.map_map]
    exact List.map_congr_left fun l _ => hstep l.1 l.2
  unfold SinkPattern.candidates
  split
  · exact hlocated (q.callSink_renumber c)
  · exact hlocated (q.callArgSink_renumber c)
  · exact hlocated (h.constructSink q c)
  · rw [hlocated (h.useSink q c), SinkPattern.firstUses_renumber]
  · rw [List.map_map]
    exact List.map_congr_left fun root _ => q.zeroSink_renumber c root
  · rw [h.contextSink]
    rfl
  · exact absurd ‹_› hkind
  · exact hlocated (h.typedCallSink q c)
  · exact hlocated (h.bumpSink q c)
  · exact hlocated (h.deserializeSink q c)

private theorem keep?_candidates (r : Rule) (q : SinkPattern) :
    Akin (fun ss ss' => (ss.map (Sink.renumber ρ)).Perm ss')
      (collectM (r.keep? f) (q.candidates f r.category))
      (collectM (r.keep? (f.renumber ρ p')) (q.candidates (f.renumber ρ p') r.category)) := by
  by_cases hkind : q.kind = .mutableBorrowPair
  · have hpairs := h.borrowPairs q
    unfold SinkPattern.candidates
    rw [hkind]
    dsimp only
    generalize q.borrowPairs f = x at hpairs ⊢
    generalize q.borrowPairs (f.renumber ρ p') = x' at hpairs ⊢
    cases hpairs with
    | error e => exact .same e
    | @ok found found' hperm =>
      have hsinks : ((found.map (SinkPattern.pairSink r.category)).map (renumberCandidate ρ)).Perm
          (found'.map (SinkPattern.pairSink r.category)) := by
        have hmap := hperm.symm.map (SinkPattern.pairSink r.category)
        rw [List.map_map] at hmap ⊢
        refine (List.Perm.of_eq (List.map_congr_left fun pair _ => ?_)).trans hmap
        exact (SinkPattern.pairSink_renumber r.category pair).symm
      refine Akin.of_exceptMap_left ?_
      rw [← collectM_exceptMap (h.keep? r)]
      refine Akin.collectM_perm hsinks fun z hz => ?_
      obtain ⟨pair, _, rfl⟩ := List.mem_map.mp (hsinks.mem_iff.mp hz)
      -- What is exempt is told by the expression of a sink, and a pair has none.
      refine (SinkPattern.pairSink_endsRun r.category pair).bind fun z hz => ?_
      cases z with
      | none => trivial
      | some s =>
        dsimp only
        rw [hz s rfl]
        trivial
  · rw [h.candidates q hkind, collectM_exceptMap (h.keep? r)]
    exact .of_exceptMap fun ss => .refl _

/-- The sinks of a rule are the same but for the numbers of types and the order of pairs of borrows.
-/
theorem sinksIn (r : Rule) :
    Akin (fun ss ss' => (ss.map (Sink.renumber ρ)).Perm ss') (r.sinksIn f)
      (r.sinksIn (f.renumber ρ p')) := by
  unfold Rule.sinksIn
  rw [h.exemptsFunction]
  refine Akin.bind_self fun exempt => ?_
  split
  · exact .ok .nil
  · refine Akin.concatM .nil (fun hs hs' => ?_) (h.keep?_candidates r)
    rw [List.map_append]
    exact hs.append hs'

end Program.Renumbers

end AccountLint
