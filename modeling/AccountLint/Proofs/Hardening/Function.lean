import AccountLint.Proofs.Hardening.Guards
import AccountLint.Proofs.Total.Verdict
import AccountLint.Proofs.Verdict.Function

/-! Hardening adds no finding about a function. -/
namespace AccountLint

/-- What a finding says, apart from how serious and how certain it is and what it rests on. -/
def Diagnostic.content (d : Diagnostic) :
    String × String × String × Location × List Location × String × String :=
  (d.category, d.errorId, d.function, d.location, d.secondary, d.message, d.hint)

/-- What is asked of a rule so that hardening adds nothing to its findings: signers are guards of
sinks that are about no places, and which types are deserialized depends on no declaration. -/
structure Rule.Steady (r : Rule) : Prop where
  signer : ∀ g ∈ r.guards, g.kind = .signerMarker → ∀ q ∈ r.sinks, q.kind = .contextFunction
  exemptions : r.coverage = .structural → r.exemptions = []
  bump : r.coverage = .structural → ∀ q ∈ r.sinks, q.kind ≠ .seedBump

theorem Rule.steady_of_mem_defaults {r : Rule} (hr : r ∈ Rule.defaults) : r.Steady := by
  obtain ⟨c, _, rfl⟩ := List.mem_map.mp hr
  cases c <;> constructor <;> decide

variable {f : Facts} {p' : Program}

namespace Program.Hardens

private theorem relevantGuards (h : f.program.Hardens p') {paths : List AccessPath} (r : Rule)
    (hr : ∀ q ∈ r.guards, q.kind = .signerMarker → paths = []) :
    Agree (Outdoes paths) (r.relevantGuards f) (r.relevantGuards (f.under p')) := by
  unfold Rule.relevantGuards
  split
  · exact .ok (.nil_left [])
  · exact h.guardsIn r hr

/-- The sinks that are not covered are thinned out with the sinks. -/
theorem uncovered (h : f.program.Hardens p') {r : Rule} {ss ss' : List Sink}
    (hss : Thins id ss ss')
    (hpaths : ∀ g ∈ r.guards, g.kind = .signerMarker → ∀ s ∈ ss, s.paths = [])
    {gs gs' : List Guard} (hgs : r.relevantGuards f = .ok gs)
    (hgs' : r.relevantGuards (f.under p') = .ok gs') :
    Thins id (ss.filter fun s => !r.isCovered f gs s)
      (ss'.filter fun s => !r.isCovered (f.under p') gs' s) := by
  have hsub : List.Sublist ss' ss := by simpa [Thins] using hss
  have hle : ∀ s ∈ ss, r.isCovered f gs s ≤ r.isCovered (f.under p') gs' s := by
    intro s hs
    refine Rule.isCovered_le rfl ?_
    exact h.relevantGuards r (fun q hq hk => hpaths q hq hk s hs) gs gs' hgs hgs'
  -- what is covered before stays covered, so leaving it out first changes nothing
  have hfilter : (ss'.filter fun s => !r.isCovered (f.under p') gs' s) =
      (ss'.filter fun s => !r.isCovered f gs s).filter fun s => !r.isCovered (f.under p') gs' s := by
    rw [List.filter_filter]
    refine List.filter_congr fun s hs => ?_
    have hs := hle s (hsub.subset hs)
    cases hold : r.isCovered f gs s with
    | false => simp
    | true => simp [hs hold]
  unfold Thins
  rw [List.map_id, List.map_id, hfilter]
  exact List.filter_sublist.trans (hsub.filter _)

private theorem findings (h : f.program.Hardens p') {r : Rule} {ss ss' : List Sink}
    (hss : Thins id ss ss')
    (hpaths : ∀ g ∈ r.guards, g.kind = .signerMarker → ∀ s ∈ ss, s.paths = []) :
    Agree (Thins Diagnostic.content) (r.findings f ss) (r.findings (f.under p') ss') := by
  intro ds ds' hds hds'
  obtain ⟨gs, hgs, hall⟩ := Rule.findings_eq_ok hds
  obtain ⟨gs', hgs', hall'⟩ := Rule.findings_eq_ok hds'
  have hthin : Thins id (ss.filter fun s => !r.isCovered f gs s)
      (ss'.filter fun s => !r.isCovered (f.under p') gs' s) := by
    rcases hgs' with rfl | hgs'
    · exact List.nil_sublist _
    · rcases hgs with rfl | hgs
      · obtain rfl := List.map_eq_nil_iff.mp (List.sublist_nil.mp hss)
        exact .refl []
      · exact h.uncovered hss hpaths hgs hgs'
  refine hthin.forall₂ hall hall' fun s d s' d' hs hd hd' => ?_
  obtain rfl : s' = s := hs
  obtain ⟨hcat, hid, _, _, hfun, hloc, hsec, ⟨fields, hfields, hm, hh⟩, _⟩ := Rule.finding_eq_ok hd
  obtain ⟨hcat', hid', _, _, hfun', hloc', hsec', ⟨fields', hfields', hm', hh'⟩, _⟩ :=
    Rule.finding_eq_ok hd'
  rw [hfields] at hfields'
  obtain rfl := Except.ok.inj hfields'
  rw [hm] at hm'
  rw [hh] at hh'
  unfold Diagnostic.content
  rw [hcat, hid, hfun, hloc, hsec, hcat', hid', hfun', hloc', hsec', Except.ok.inj hm',
    Except.ok.inj hh']
  rfl

end Program.Hardens

namespace FunctionReport

/-- A report with the same types and some findings left out. -/
structure Thins (report report' : FunctionReport) : Prop where
  skipped : report'.skipped = report.skipped
  types : report'.types = report.types
  diagnostics : AccountLint.Thins Diagnostic.content report.diagnostics report'.diagnostics

private theorem extend_agree (h : f.program.Hardens p') {r : Rule} (hr : r.Steady)
    {report report' : FunctionReport} (hreport : Thins report report') :
    Agree Thins (report.extend f r) (report'.extend (f.under p') r) := by
  unfold extend
  split
  · exact .ok hreport
  · by_cases hc : r.coverage = .structural
    · refine (h.sinksIn_eq (hr.exemptions hc) (hr.bump hc)).bind fun ss ss' hss => ?_
      rw [if_pos (beq_iff_eq.mpr hc), if_pos (beq_iff_eq.mpr hc), ← hss]
      refine .ok ⟨hreport.skipped, ?_, hreport.diagnostics⟩
      exact congrArg (TypeSet.merge · _) hreport.types
    · refine (h.sinksIn r).with_eq.bind fun ss ss' hss => ?_
      rw [if_neg (mt beq_iff_eq.mp hc), if_neg (mt beq_iff_eq.mp hc)]
      have hpaths : ∀ g ∈ r.guards, g.kind = .signerMarker → ∀ s ∈ ss, s.paths = [] := by
        intro g hg hk s hs
        exact Rule.paths_of_mem_sinksIn (hr.signer g hg hk) hss.1 hs
      refine (h.findings hss.2 hpaths).bind fun ds ds' hds => ?_
      exact .ok ⟨hreport.skipped, hreport.types, hreport.diagnostics.append hds⟩

private theorem ofBody_agree {p : Program} (h : p.Hardens p') {rules : List Rule}
    (hrules : ∀ r ∈ rules, r.Steady) (g : Function) :
    Agree Thins (ofBody p rules g) (ofBody p' rules g) := by
  have hbuild : Agree (fun facts facts' => facts.program = p ∧ facts' = facts.under p')
      (Facts.build p g) (Facts.build p' g) := by
    intro facts facts' hfacts hfacts'
    obtain ⟨_, blocks, hb, hl, ha, hp, hg⟩ := Facts.build_eq_ok hfacts
    obtain ⟨_, blocks', hb', hl', ha', hp', hg'⟩ := Facts.build_eq_ok hfacts'
    rw [hb] at hb'
    rw [← Except.ok.inj hb', hl] at hl'
    rw [ha] at ha'
    refine ⟨hp, ?_⟩
    unfold Facts.under
    rw [hg, Except.ok.inj hl', Except.ok.inj ha', ← hp', ← hg']
  refine hbuild.bind fun facts facts' hfacts => ?_
  obtain ⟨rfl, rfl⟩ := hfacts
  refine .foldlM ⟨rfl, rfl, .refl []⟩ fun report report' hreport r hr => ?_
  exact extend_agree h (hrules r hr) hreport

/-- Where types are in range, a function is skipped because it has no body or is not accepted, which
no declaration has a say in. -/
theorem ofFunction_of_accepted {p : Program} {rules : List Rule} (hplain : ∀ r ∈ rules, r.Plain)
    (htypes : p.TypesInRange) {g : Function} (hexprs : ∀ e ∈ g.exprs, p.InTable e.type)
    (hparams : ∀ q ∈ g.params, p.InTable q.type) (hm : g.modeled = true) (hv : g.validate = .ok ())
    {answer : FunctionReport × List Note} (h : ofFunction p rules g = .ok answer) :
    ofBody p rules g = .ok answer.1 := by
  have hbody : Yields (fun e => e.rejectsModel = false) (Fits p g.name) (ofBody p rules g) := by
    refine ofBody_yields hplain htypes (fun t _ => ?_) ?_ hv
    · exact ⟨Or.inr ⟨rfl, rfl⟩, fun _ _ => Or.inr ⟨rfl, rfl⟩, fun _ _ => Or.inr ⟨rfl, rfl⟩,
        fun _ _ _ _ => Or.inr ⟨rfl, rfl⟩⟩
    · exact ⟨fun _ _ _ _ => Or.inr ⟨rfl, rfl⟩, hexprs, fun _ _ => Or.inr ⟨rfl, rfl⟩, hparams,
        fun _ _ _ => Or.inr rfl, fun _ _ _ _ _ _ => Or.inr rfl⟩
  unfold ofFunction at h
  rw [hm] at h
  cases hresult : ofBody p rules g with
  | ok report =>
    rw [hresult] at h
    rw [← Except.ok.inj h]
  | error e =>
    rw [hresult] at h hbody
    have he : e.rejectsModel = false := hbody
    simp [he] at h

theorem ofFunction_agree {p : Program} (h : p.Hardens p') {rules : List Rule}
    (hsteady : ∀ r ∈ rules, r.Steady) (hplain : ∀ r ∈ rules, r.Plain) (htypes : p.TypesInRange)
    {g : Function} (hexprs : ∀ e ∈ g.exprs, p.InTable e.type)
    (hparams : ∀ q ∈ g.params, p.InTable q.type) :
    Agree (fun a a' => Thins a.1 a'.1) (ofFunction p rules g) (ofFunction p' rules g) := by
  have hrefl : ∀ a : FunctionReport × List Note, Thins a.1 a.1 := fun a => ⟨rfl, rfl, .refl _⟩
  cases hm : g.modeled with
  | false =>
    refine .of_eq ?_ hrefl
    unfold ofFunction
    rw [hm]
    rfl
  | true =>
    cases hv : g.validate with
    | error e =>
      -- a function that is not accepted is rejected before any type is looked up
      have hbody : ∀ p, ofBody p rules g = .error e := by
        intro p
        unfold ofBody Facts.build
        rw [hv]
        rfl
      refine .of_eq ?_ hrefl
      unfold ofFunction
      rw [hbody, hbody]
    | ok _ =>
      intro a a' ha ha'
      have hold := ofFunction_of_accepted hplain htypes hexprs hparams hm hv ha
      have hnew := ofFunction_of_accepted hplain (h.typesInRange htypes)
        (fun e he => h.inTable (hexprs e he)) (fun q hq => h.inTable (hparams q hq)) hm hv ha'
      exact ofBody_agree h hsteady g a.1 a'.1 hold hnew

end FunctionReport
end AccountLint
