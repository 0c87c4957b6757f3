import AccountLint.Proofs.Cosplay.TypeSet
import AccountLint.Proofs.Total.Sinks
import AccountLint.Verdict.Function

/-! Rules with plain templates come to a verdict on every function that fits its program. -/
namespace AccountLint

variable {may : Fault → Prop} {f : Facts}

namespace Facts.Fits

private theorem isMarker (h : f.Fits may) {i : Int} (hi : f.function.HasExpr i) :
    Safe may (f.isMarker i) := by
  unfold Facts.isMarker
  extract_lets byValue
  have hvalue : Safe may byValue := by
    refine (h.expr hi).bind fun e _ => ?_
    split <;> trivial
  refine (h.typeOf fun j hj => (by rw [← Option.some.inj hj]; exact hi)).bind fun t _ => ?_
  cases t with
  | none => exact hvalue
  | some t =>
    dsimp only
    split
    · trivial
    · exact hvalue

private theorem markerStep (h : f.Fits may) (found : Bool × Bool) {b : Int} {e : Expr}
    (he : e ∈ f.function.exprs) : Safe may (f.markerStep found (b, e)) := by
  unfold Facts.markerStep
  dsimp only
  split
  · exact (h.pathOf fun r hr => h.valid.receiver_lt he hr).bind fun _ _ => trivial
  · split
    · split
      · trivial
      · exact (Yields.anyM fun i hi => h.isMarker (h.valid.operand_lt he hi)).bind fun _ _ => trivial
    · trivial

private theorem marksClosed (h : f.Fits may) : Safe may f.marksClosed := by
  unfold Facts.marksClosed
  have hrun : Safe may (f.located.foldlM f.markerStep (false, false)) :=
    Yields.foldlM trivial fun found _ l hl => h.markerStep found (h.located l hl)
  exact hrun.bind fun _ _ => trivial

end Facts.Fits

private theorem Sink.Fits.pathTexts {s : Sink} (h : s.Fits may f) : Safe may s.pathTexts := by
  unfold Sink.pathTexts
  exact (Yields.mapM_safe fun q hq => (h.path q hq).display).bind fun _ _ => trivial

private theorem Sink.Fits.fields {s : Sink} (h : s.Fits may f) : Safe may s.fields :=
  h.pathTexts.bind fun _ _ => trivial

namespace Rule

private theorem exemptsFunction_safe (r : Rule) (h : f.Fits may) :
    Safe may (r.exemptsFunction f) := by
  refine Yields.anyM fun x _ => ?_
  split
  · exact h.marksClosed
  · trivial

private theorem exemptsExpr_safe (r : Rule) (h : f.Fits may) {i : Int} (hi : f.function.HasExpr i) :
    Safe may (r.exemptsExpr f i) := by
  refine Yields.anyM fun x _ => ?_
  split
  · exact h.derivesFrom _ hi
  · trivial

private theorem keep?_fits (r : Rule) (h : f.Fits may) {z : Except Fault (Option Sink)}
    (hz : FitCandidate may f z) : FitCandidate may f (r.keep? f z) := by
  unfold keep?
  refine hz.bind fun z hz => ?_
  cases z with
  | none => exact fitCandidate_none
  | some s =>
    have hs := hz s rfl
    dsimp only
    split
    · exact fitCandidate_some hs
    · refine (r.exemptsExpr_safe h (hs.expr _ ‹_›)).bind fun exempt _ => ?_
      split
      · exact fitCandidate_none
      · exact fitCandidate_some hs

end Rule

private theorem SinkPattern.candidates_fit (p : SinkPattern) (hp : 0 ≤ p.argument) (h : f.Fits may)
    (c : Category) : ∀ z ∈ p.candidates f c, FitCandidate may f z := by
  intro z hz
  unfold candidates at hz
  split at hz
  · obtain ⟨l, hl, rfl⟩ := List.mem_map.mp hz
    exact p.callSink_fits h c (h.located l hl)
  · obtain ⟨l, hl, rfl⟩ := List.mem_map.mp hz
    exact p.callArgSink_fits hp h c (h.located l hl)
  · obtain ⟨l, hl, rfl⟩ := List.mem_map.mp hz
    exact p.constructSink_fits h c (h.located l hl)
  · obtain ⟨l, hl, rfl⟩ := List.mem_map.mp (firstUses_subset hz)
    exact p.useSink_fits h c (h.located l hl)
  · obtain ⟨root, hr, rfl⟩ := List.mem_map.mp hz
    exact p.zeroSink_fits h c hr
  · rw [List.mem_singleton.mp hz]
    exact p.contextSink_fits h c
  · have hpairs := p.borrowPairs_yields h
    split at hz
    · rename_i e he
      rw [he] at hpairs
      rw [List.mem_singleton.mp hz]
      exact hpairs
    · rename_i found hfound
      rw [hfound] at hpairs
      obtain ⟨q, hq, rfl⟩ := List.mem_map.mp hz
      exact pairSink_fits c (hpairs q hq).1 (hpairs q hq).2
  · obtain ⟨l, hl, rfl⟩ := List.mem_map.mp hz
    exact p.typedCallSink_fits h c (h.located l hl)
  · obtain ⟨l, hl, rfl⟩ := List.mem_map.mp hz
    exact p.bumpSink_fits h c (h.located l hl)
  · obtain ⟨l, hl, rfl⟩ := List.mem_map.mp hz
    exact p.deserializeSink_fits h c (h.located l hl)

namespace Rule

variable {r : Rule}

theorem sinksIn_yields (hr : ∀ p ∈ r.sinks, 0 ≤ p.argument) (h : f.Fits may) :
    Yields may (fun ss => ∀ s ∈ ss, Sink.Fits may f s) (r.sinksIn f) := by
  unfold sinksIn
  refine (r.exemptsFunction_safe h).bind fun exempt _ => ?_
  split
  · exact fun s hs => (by cases hs)
  · refine Yields.concatM fun p hp => Yields.collectM fun z hz => r.keep?_fits h ?_
    exact p.candidates_fit (hr p hp) h r.category z hz

private theorem finding_safe (hr : r.Plain) (guards : List Guard) {s : Sink} (hs : s.Fits may f) :
    Safe may (r.finding f guards s) := by
  unfold finding
  refine hs.fields.bind fun fields _ => ?_
  have hmessage : Template.isPlain (if s.message.isEmpty then r.message else s.message) = true := by
    split
    · exact hr.message
    · exact hs.message
  refine (Template.fill_safe hmessage _).bind fun message _ => ?_
  refine (Template.fill_safe hr.hint _).bind fun hint _ => ?_
  exact hs.pathTexts.bind fun _ _ => trivial

private theorem findings_safe (hr : r.Plain) (h : f.Fits may) {sinks : List Sink}
    (hs : ∀ s ∈ sinks, Sink.Fits may f s) : Safe may (r.findings f sinks) := by
  unfold findings
  split
  · trivial
  · have hguards : Safe may (r.relevantGuards f) := by
      unfold relevantGuards
      split
      · trivial
      · exact r.guardsIn_safe h
    refine hguards.bind fun guards _ => Yields.collectM_safe fun s hmem => ?_
    split
    · trivial
    · exact (finding_safe hr guards (hs s hmem)).bind fun _ _ => trivial

end Rule

namespace TypeSet

theorem mem_ofSinks {site : DeserializationSite} {name : String} {sinks : List Sink} :
    site ∈ (ofSinks name sinks).sites ↔
      ∃ s ∈ sinks, ∃ t, s.type = some t ∧ site = ⟨t, name, s.location⟩ := by
  unfold ofSinks ofSites
  rw [mem_foldl_add, List.mem_filterMap]
  constructor
  · intro h
    rcases h with h | ⟨s, hs, h⟩
    · cases h
    · obtain ⟨t, ht, rfl⟩ := Option.map_eq_some_iff.mp h
      exact ⟨s, hs, t, ht, rfl⟩
  · intro h
    obtain ⟨s, hs, t, ht, rfl⟩ := h
    exact Or.inr ⟨s, hs, by rw [ht]; rfl⟩

def InTable (p : Program) (s : TypeSet) : Prop :=
  ∀ site ∈ s.sites, p.InTable (some (.index site.type))

end TypeSet

namespace FunctionReport

/-- A report on a function that was not skipped, with types of the table. -/
structure Fits (p : Program) (name : String) (report : FunctionReport) : Prop where
  function : report.function = name
  skipped : report.skipped = false
  types : report.types.InTable p

private theorem extend_yields {r : Rule} (hr : r.Plain) (h : f.Fits may) {name : String}
    {report : FunctionReport} (hreport : report.Fits f.program name) :
    Yields may (Fits f.program name) (report.extend f r) := by
  unfold extend
  split
  · exact hreport
  · refine (Rule.sinksIn_yields hr.argument h).bind fun sinks hsinks => ?_
    split
    · refine ⟨hreport.function, hreport.skipped, fun site hsite => ?_⟩
      rcases TypeSet.mem_merge.mp hsite with hsite | hsite
      · exact hreport.types site hsite
      · obtain ⟨s, hs, t, ht, rfl⟩ := TypeSet.mem_ofSinks.mp hsite
        exact (hsinks s hs).type t ht
    · refine (Rule.findings_safe hr h hsinks).bind fun ds _ => ?_
      exact ⟨hreport.function, hreport.skipped, hreport.types⟩

/-- Rules with plain templates report on every function that is accepted. -/
theorem ofBody_yields {p : Program} {rules : List Rule} (hrules : ∀ r ∈ rules, r.Plain)
    {g : Function} (htypes : p.TypesInRange) (hnames : ∀ t ∈ p.types, t.FitNames may)
    (hfit : g.Fits may p) (hv : g.validate = .ok ()) :
    Yields may (Fits p g.name) (ofBody p rules g) := by
  unfold ofBody
  refine (Facts.build_yields htypes hnames hfit hv).bind fun facts hfacts => ?_
  obtain ⟨hfacts, rfl, rfl⟩ := hfacts
  refine Yields.foldlM ⟨rfl, rfl, fun site hsite => (by cases hsite)⟩ ?_
  intro report hreport r hr
  exact extend_yields (hrules r hr) hfacts hreport

end FunctionReport
end AccountLint
