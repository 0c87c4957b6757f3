import AccountLint.Proofs.Total.Guards
import AccountLint.Proofs.Total.Templates
import AccountLint.Sink.Classification

/-! The sinks of any rule can be found in a function that fits its program. -/
namespace AccountLint

variable {may : Fault → Prop} {f : Facts}

/-- What a sink is about is there: its places have fit names, and its expression and type exist. A
message of its own is plain. -/
structure Sink.Fits (may : Fault → Prop) (f : Facts) (s : Sink) : Prop where
  path : ∀ q ∈ s.paths, q.FitNames may
  expr : ∀ i, s.expr = some i → f.function.HasExpr i
  type : ∀ i, s.type = some i → f.program.InTable (some (.index i))
  message : Template.isPlain s.message = true

abbrev FitCandidate (may : Fault → Prop) (f : Facts) (z : Except Fault (Option Sink)) : Prop :=
  Yields may (fun z => ∀ s, z = some s → Sink.Fits may f s) z

theorem fitCandidate_none : FitCandidate may f (.ok none) := fun _ h => (by cases h)

theorem fitCandidate_some {s : Sink} (h : s.Fits may f) : FitCandidate may f (.ok (some s)) := by
  intro t ht
  rw [← Option.some.inj ht]
  exact h

private theorem describe_safe (words : String) {z : Option AccessPath} (h : FitPlace may z) :
    Safe may (describe words z) := by
  cases z with
  | none => trivial
  | some q => exact (h q rfl).display

/-- Positions of types can be put in increasing order. -/
theorem TypeRef.sorted_yields {ts : List TypeRef} (h : ∀ t ∈ ts, ∃ i, t = .index i) :
    Yields may (fun us => ∀ u ∈ us, u ∈ ts) (TypeRef.sorted ts) := by
  unfold TypeRef.sorted sortedSet
  extract_lets keys
  have hkey : ∀ k ∈ keys, ∃ i, k = .int i ∧ .index i ∈ ts := by
    intro k hk
    obtain ⟨t, ht, rfl⟩ := List.mem_map.mp hk
    obtain ⟨i, rfl⟩ := h t ht
    exact ⟨i, rfl, ht⟩
  have hnumbers : keys.all Value.isNumber = true := by
    refine List.all_eq_true.mpr fun k hk => ?_
    obtain ⟨i, rfl, _⟩ := hkey k hk
    rfl
  rw [hnumbers, Bool.or_true, if_pos rfl]
  intro u hu
  obtain ⟨k, hk, rfl⟩ := List.mem_map.mp hu
  obtain ⟨i, rfl, hi⟩ := hkey k (mem_sortBy.mp hk)
  exact hi

namespace SinkPattern

private theorem calls_safe (p : SinkPattern) (methods : Bool) (h : f.Fits may) {e : Expr}
    (he : e ∈ f.function.exprs) : Safe may (p.calls methods e) := by
  unfold calls
  split
  · trivial
  · exact (h.function.name e he).matchesAny _

private theorem callsAssociated_safe (p : SinkPattern) (h : f.Fits may) {e : Expr}
    (he : e ∈ f.function.exprs) : Safe may (p.callsAssociated e) := by
  unfold callsAssociated
  split
  · trivial
  · exact Yields.anyM fun t _ => (h.function.name e he).callMatches t

private theorem aims_safe (p : SinkPattern) (h : f.Fits may) {r : Option TypeRef}
    (hr : f.program.InTable r) : Safe may (p.aims f r) := by
  unfold aims
  refine hr.type?.bind fun z hz => ?_
  cases z with
  | none => trivial
  | some t => exact (fitName_some (h.names t (hz t rfl)).path).matchesAny _

theorem callSink_fits (p : SinkPattern) (h : f.Fits may) (c : Category) {b : Int} {e : Expr}
    (he : e ∈ f.function.exprs) : FitCandidate may f (p.callSink c (b, e)) := by
  unfold callSink
  refine (p.calls_safe true h he).bind fun called _ => ?_
  split
  · exact fitCandidate_none
  · exact fitCandidate_some ⟨fun q hq => (by cases hq), fun i hi => (by cases hi),
      fun i hi => (by cases hi), Template.isPlain_empty⟩

private theorem operandSink_fits (h : f.Fits may) (c : Category) (b : Int) (e : Expr) {o : Int}
    (ho : f.function.HasExpr o) : Yields may (Sink.Fits may f) (operandSink f c b e o) := by
  unfold operandSink
  refine (h.pathOf_some ho).bind fun z hz => (describe_safe _ hz).bind fun text _ => ?_
  refine (AccessPath.setOf_yields (fitNames_toList hz)).bind fun qs hqs => ?_
  refine ⟨hqs, fun i hi => ?_, fun i hi => (by cases hi), Template.isPlain_empty⟩
  rw [← Option.some.inj hi]
  exact ho

theorem callArgSink_fits (p : SinkPattern) (hp : 0 ≤ p.argument) (h : f.Fits may) (c : Category)
    {b : Int} {e : Expr} (he : e ∈ f.function.exprs) :
    FitCandidate may f (p.callArgSink f c (b, e)) := by
  unfold callArgSink
  refine (p.calls_safe false h he).bind fun called _ => ?_
  split
  · exact fitCandidate_none
  · split
    · exact fitCandidate_none
    · rename_i hlt
      have hlt' : p.argument < e.operands.length := by omega
      obtain ⟨o, ho, hget⟩ := fromEnd?_of_inRange hp hlt'
      rw [ho]
      refine (operandSink_fits h c b e (h.valid.operand_lt he (List.mem_of_getElem? hget))).bind
        fun s hs => fitCandidate_some hs

theorem constructSink_fits (p : SinkPattern) (h : f.Fits may) (c : Category) {b : Int} {e : Expr}
    (he : e ∈ f.function.exprs) : FitCandidate may f (p.constructSink f c (b, e)) := by
  unfold constructSink
  dsimp only
  split
  · exact fitCandidate_none
  · rename_i hk
    have hkind : e.kind = .construct := by simpa using hk
    refine (p.aims_safe h (h.function.type e he)).bind fun aimed _ => ?_
    split
    · exact fitCandidate_none
    · split
      · exact fitCandidate_none
      · rename_i k hidx
        split
        · rename_i hnone
          rcases h.function.construct e he hkind with hle | hbounds
          · obtain ⟨hk, _⟩ := List.idxOf?_eq_some_iff.mp hidx
            have hlt : k < e.operands.length := by omega
            rw [List.getElem?_eq_getElem hlt] at hnone
            cases hnone
          · exact hbounds
        · rename_i o ho
          exact (operandSink_fits h c b e (h.valid.operand_lt he (List.mem_of_getElem? ho))).bind
            fun s hs => fitCandidate_some hs

private theorem isConversion_safe (p : SinkPattern) (h : f.Fits may) {e : Expr}
    (he : e ∈ f.function.exprs) : Safe may (p.isConversion f e) := by
  unfold isConversion
  split
  · trivial
  · refine ((h.function.name e he).nameIn _).bind fun named _ => ?_
    split
    · trivial
    · refine (h.typeOf fun r hr => h.valid.receiver_lt he hr).bind fun z hz => ?_
      cases z with
      | none => trivial
      | some t => exact (fitName_some (h.names t (hz t rfl)).path).matchesAny _

theorem useSink_fits (p : SinkPattern) (h : f.Fits may) (c : Category) {b : Int} {e : Expr}
    (he : e ∈ f.function.exprs) : FitCandidate may f (p.useSink f c (b, e)) := by
  have hid := (h.valid.expr_id he).1
  unfold useSink
  dsimp only
  split
  · exact fitCandidate_none
  · refine (p.aims_safe h (h.function.type e he)).bind fun aimed _ => ?_
    split
    · exact fitCandidate_none
    · refine (p.isConversion_safe h he).bind fun conversion _ => ?_
      split
      · exact fitCandidate_none
      · refine (h.pathOf_some hid).bind fun z hz => ?_
        refine (AccessPath.setOf_yields (fitNames_toList hz)).bind fun qs hqs => ?_
        refine (describe_safe _ hz).bind fun text _ => fitCandidate_some
          ⟨hqs, fun i hi => ?_, fun i hi => (by cases hi), Template.isPlain_empty⟩
        rw [← Option.some.inj hi]
        exact hid

theorem firstUses_subset {x : Except Fault (Option Sink)} {seen : List AccessPath}
    {xs : List (Except Fault (Option Sink))} (h : x ∈ firstUses seen xs) : x ∈ xs := by
  fun_induction firstUses seen xs with
  | case1 => exact h
  | case2 seen s rest hs ih => exact List.mem_cons_of_mem _ (ih h)
  | case3 seen s rest hs ih =>
    rcases List.mem_cons.mp h with rfl | h
    · exact List.mem_cons_self
    · exact List.mem_cons_of_mem _ (ih h)
  | case4 seen other rest hs ih =>
    rcases List.mem_cons.mp h with rfl | h
    · exact List.mem_cons_self
    · exact List.mem_cons_of_mem _ (ih h)

theorem zeroSink_fits (p : SinkPattern) (h : f.Fits may) (c : Category) {b : Int} {s : Stmt}
    (hs : (b, s) ∈ f.function.roots) : FitCandidate may f (p.zeroSink f c (b, s)) := by
  obtain ⟨k, hk, _, hsk⟩ := Function.mem_roots_iff.mp hs
  unfold zeroSink
  dsimp only
  split
  · rename_i ht
    refine (h.isZero (h.valid.value k hk s hsk)).bind fun zero _ => ?_
    split
    · exact fitCandidate_none
    · refine (h.targetPath hs ht).bind fun z hz => ?_
      cases z with
      | none => exact fitCandidate_none
      | some path =>
        dsimp only
        split
        · rename_i hparent
          have hfit := (hz path rfl).parent hparent
          split
          · exact fitCandidate_none
          · refine (AccessPath.setOf_yields fun q hq => ?_).bind fun qs hqs => ?_
            · rw [List.mem_singleton.mp hq]
              exact hfit
            · exact hfit.display.bind fun text _ => fitCandidate_some
                ⟨hqs, fun i hi => (by cases hi), fun i hi => (by cases hi), Template.isPlain_empty⟩
        · exact fitCandidate_none
  · exact fitCandidate_none

theorem contextSink_fits (p : SinkPattern) (h : f.Fits may) (c : Category) :
    FitCandidate may f (p.contextSink f c) := by
  unfold contextSink
  have hfirst : Safe may (firstM (fun param : Param => do
      return if ← p.aims f param.type then some param else none) f.function.params) :=
    Yields.firstM_safe fun param hp =>
      (p.aims_safe h (h.function.paramType param hp)).bind fun _ _ => trivial
  refine hfirst.bind fun param _ => ?_
  intro s hs
  obtain ⟨q, _, rfl⟩ := Option.map_eq_some_iff.mp hs
  exact ⟨fun q hq => (by cases hq), fun i hi => (by cases hi), fun i hi => (by cases hi),
    Template.isPlain_empty⟩

/-- What a borrow is of has fit names, and its type is in the table. -/
structure Borrow.Fits (may : Fault → Prop) (f : Facts) (b : Borrow) : Prop where
  path : b.path.FitNames may
  inner : f.program.InTable (some b.inner)

private theorem borrow?_fits (p : SinkPattern) (h : f.Fits may) {b : Int} {e : Expr}
    (he : e ∈ f.function.exprs) :
    Yields may (fun z => ∀ k, z = some k → Borrow.Fits may f k) (p.borrow? f (b, e)) := by
  unfold borrow?
  dsimp only
  split
  · exact fun k hk => (by cases hk)
  · have htype := h.function.type e he
    refine (p.aims_safe h htype).bind fun aimed _ => ?_
    split
    · exact fun k hk => (by cases hk)
    · refine (h.types.innerType htype).bind fun inner hinner => ?_
      refine (h.pathOf_some (h.valid.expr_id he).1).bind fun z hz => ?_
      split
      · intro k hk
        rw [← Option.some.inj hk]
        exact ⟨hz _ rfl, hinner⟩
      · exact fun k hk => (by cases hk)

private theorem firstBorrows_subset {bs : List Borrow} {b : Borrow} (h : b ∈ firstBorrows bs) :
    b ∈ bs :=
  distinctBy_subset h

theorem borrowPairs_yields (p : SinkPattern) (h : f.Fits may) :
    Yields may (fun pairs => ∀ q ∈ pairs, Borrow.Fits may f q.1 ∧ Borrow.Fits may f q.2)
      (p.borrowPairs f) := by
  unfold borrowPairs
  have hborrows : Yields may (fun bs => ∀ b ∈ bs, Borrow.Fits may f b)
      (collectM (p.borrow? f) f.located) :=
    Yields.collectM fun l hl => p.borrow?_fits h (h.located l hl)
  refine hborrows.bind fun found hfound => ?_
  extract_lets borrows
  have hall : ∀ b ∈ borrows, Borrow.Fits may f b := fun b hb => hfound b (firstBorrows_subset hb)
  refine (TypeRef.sorted_yields fun t ht => ?_).bind fun inners _ => ?_
  · obtain ⟨b, hb, rfl⟩ := List.mem_map.mp (mem_distinct.mp ht)
    obtain ⟨i, hi, _⟩ := (hall b hb).inner _ rfl
    exact ⟨i, hi⟩
  · intro q hq
    obtain ⟨t, _, hq⟩ := List.mem_flatMap.mp hq
    obtain ⟨ha, hb⟩ := mem_of_mem_pairs hq
    exact ⟨hall _ (List.mem_filter.mp ha).1, hall _ (List.mem_filter.mp hb).1⟩

theorem pairSink_fits (c : Category) {pair : Borrow × Borrow} (ha : Borrow.Fits may f pair.1)
    (hb : Borrow.Fits may f pair.2) : FitCandidate may f (pairSink c pair) := by
  unfold pairSink
  refine ha.path.display.bind fun first _ => hb.path.display.bind fun second _ => ?_
  refine (AccessPath.setOf_yields fun q hq => ?_).bind fun qs hqs => fitCandidate_some
    ⟨hqs, fun i hi => (by cases hi), fun i hi => (by cases hi), Template.isPlain_empty⟩
  rcases List.mem_cons.mp hq with rfl | hq
  · exact ha.path
  · rw [List.mem_singleton.mp hq]
    exact hb.path

theorem typedCallSink_fits (p : SinkPattern) (h : f.Fits may) (c : Category) {b : Int} {e : Expr}
    (he : e ∈ f.function.exprs) : FitCandidate may f (p.typedCallSink f c (b, e)) := by
  unfold typedCallSink
  dsimp only
  split
  · exact fitCandidate_none
  · refine (p.callsAssociated_safe h he).bind fun called _ => ?_
    split
    · exact fitCandidate_none
    · have hname : Safe may (resultName f e) := by
        unfold resultName
        refine (h.types.unwrap h.names _ (h.function.type e he)).bind fun r hr => ?_
        refine hr.type?.bind fun z hz => ?_
        cases z with
        | none => trivial
        | some t => exact (h.names t (hz t rfl)).name
      refine hname.bind fun name _ => ?_
      split
      · exact fitCandidate_none
      · exact fitCandidate_some ⟨fun q hq => (by cases hq), fun i hi => (by cases hi),
          fun i hi => (by cases hi), Template.isPlain_empty⟩

private theorem readsData_safe (h : f.Fits may) {e : Expr} (he : e ∈ f.function.exprs) :
    Safe may (readsData f e) :=
  Yields.anyM fun _ hi => (h.pathOf_some (h.valid.child_lt he hi).1).bind fun _ _ => trivial

private theorem wants_safe (p : SinkPattern) (h : f.Fits may) {t : TypeDecl}
    (ht : t ∈ f.program.types) {e : Expr} (he : e ∈ f.function.exprs) :
    Safe may (p.wants f t e) := by
  have hdata : Safe may (if p.fromAccountData then readsData f e else pure true) := by
    split
    · exact readsData_safe h he
    · trivial
  unfold wants
  cases p.trait.isEmpty with
  | true => exact hdata
  | false =>
    refine ((h.names t ht).hasTrait _).bind fun has _ => ?_
    cases has with
    | true => exact hdata
    | false => trivial

theorem deserializeSink_fits (p : SinkPattern) (h : f.Fits may) (c : Category) {b : Int} {e : Expr}
    (he : e ∈ f.function.exprs) : FitCandidate may f (p.deserializeSink f c (b, e)) := by
  unfold deserializeSink
  refine (p.callsAssociated_safe h he).bind fun called _ => ?_
  split
  · exact fitCandidate_none
  · refine (h.types.unwrap h.names _ (h.function.type e he)).bind fun r hr => ?_
    split
    · refine hr.type?.bind fun z hz => ?_
      cases z with
      | none => exact fitCandidate_none
      | some t =>
        have ht := hz t rfl
        refine (p.wants_safe h ht he).bind fun wanted _ => ?_
        split
        · exact fitCandidate_none
        · refine (h.names t ht).name.bind fun name _ => fitCandidate_some
            ⟨fun q hq => (by cases hq), fun i hi => (by cases hi), fun i hi => ?_,
              Template.isPlain_empty⟩
          rw [← Option.some.inj hi]
          exact hr
    · exact fitCandidate_none

end SinkPattern

namespace Facts.Fits

private theorem source (h : f.Fits may) {i : Int} (hi : f.function.HasExpr i) :
    Yields may (· ∈ f.function.exprs) (f.source i) := by
  unfold Facts.source
  refine (h.aliases.originList h.function h.valid hi).bind fun is his => h.expr ?_
  cases hlast : is.getLast? with
  | none =>
    rw [List.getLastD_eq_getLast?, hlast]
    exact hi
  | some j =>
    rw [List.getLastD_eq_getLast?, hlast]
    exact his j (List.mem_of_getLast? hlast)

private theorem bumpOf (h : f.Fits may) {seeds : Int} (hs : f.function.HasExpr seeds) :
    Yields may (fun z => ∀ i, z = some i → f.function.HasExpr i) (f.bumpOf seeds) := by
  unfold Facts.bumpOf
  refine (h.source hs).bind fun outer houter => ?_
  split
  · rename_i a b rest _ hops
    have hlast : f.function.HasExpr ((b :: rest).getLastD a) := by
      refine h.valid.operand_lt houter ?_
      rw [hops, List.getLastD_cons]
      exact List.mem_cons_of_mem _ List.getLastD_mem_cons
    refine (h.source hlast).bind fun inner hinner => ?_
    split
    · rename_i bump _ hops
      intro i hi
      rw [← Option.some.inj hi]
      exact h.valid.operand_lt hinner (by rw [hops]; exact List.mem_cons_self)
    · exact fun i hi => (by cases hi)
  · exact fun i hi => (by cases hi)

private theorem declaresBump (h : f.Fits may) {i : Int} (hi : f.function.HasExpr i) :
    Safe may (f.declaresBump i) := by
  unfold Facts.declaresBump
  refine (h.source hi).bind fun e he => ?_
  split
  · refine (h.expr (h.valid.receiver_lt he ‹_›)).bind fun r hr => ?_
    refine (h.types.structBehind (h.function.type r hr)).bind fun z _ => ?_
    cases z with
    | none => trivial
    | some t => trivial
  · trivial

private theorem bumpStep (h : f.Fits may) {i : Int} (hi : f.function.HasExpr i) :
    Safe may (f.bumpStep i) := by
  unfold Facts.bumpStep
  refine (h.expr hi).bind fun e he => ?_
  split
  · have hr := h.valid.receiver_lt he ‹_›
    refine (h.declaresBump hr).bind fun declared _ => ?_
    split
    · trivial
    · refine (h.expr hr).bind fun r hr => ?_
      have htype := h.function.type r hr
      refine (h.types.structBehind htype).bind fun z hz => ?_
      cases z with
      | none => trivial
      | some owner =>
        have hholder : Safe may (f.bumpHolder owner r.type) := by
          unfold Facts.bumpHolder
          refine htype.type?.bind fun w hw => ?_
          refine ((h.names owner (hz owner rfl)).hasTrait _).bind fun has _ => ?_
          split
          · trivial
          · cases w with
            | none => trivial
            | some w =>
              refine ((fitName_some (h.names w (hw w rfl)).path).matchesAny _).bind fun found _ => ?_
              split <;> trivial
        exact hholder.bind fun _ _ => trivial
  · trivial

private theorem bumpOrigin (h : f.Fits may) {i : Int} (hi : f.function.HasExpr i) :
    Safe may (f.bumpOrigin i) :=
  (h.firstOrigin hi fun _ hj => h.bumpStep hj).bind fun _ _ => trivial

end Facts.Fits

theorem SinkPattern.bumpSink_fits (p : SinkPattern) (h : f.Fits may) (c : Category) {b : Int}
    {e : Expr} (he : e ∈ f.function.exprs) : FitCandidate may f (p.bumpSink f c (b, e)) := by
  unfold bumpSink
  refine (p.calls_safe false h he).bind fun called _ => ?_
  split
  · exact fitCandidate_none
  · split
    · exact fitCandidate_none
    · rename_i seeds rest hops
      have hseeds := h.valid.operand_lt he (by rw [hops]; exact List.mem_cons_self)
      refine (h.bumpOf hseeds).bind fun z hz => ?_
      cases z with
      | none => exact fitCandidate_none
      | some bump =>
        have hbump := hz bump rfl
        refine (h.bumpOrigin hbump).bind fun origin _ => ?_
        split
        · exact fitCandidate_none
        · refine (h.pathOf_some hbump).bind fun q hq => (describe_safe _ hq).bind fun text _ => ?_
          exact (AccessPath.setOf_yields (fitNames_toList hq)).bind fun qs hqs => fitCandidate_some
            ⟨hqs, fun i hi => (by cases hi), fun i hi => (by cases hi), origin.isPlain_message⟩

end AccountLint
