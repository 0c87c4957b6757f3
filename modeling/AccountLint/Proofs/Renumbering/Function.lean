import AccountLint.Proofs.Facts.Location
import AccountLint.Proofs.Renumbering.Sinks
import AccountLint.Proofs.Text.Filling
import AccountLint.Proofs.Total.Verdict

/-! The report on a function does not depend on the numbering of types, but for the order of its
findings and the numbers of the types that it deserializes. -/
namespace AccountLint

variable {ρ : Equiv.Perm Int} {f : Facts} {p p' : Program}

def DeserializationSite.renumber (ρ : Equiv.Perm Int) (s : DeserializationSite) : DeserializationSite :=
  { s with type := ρ s.type }

theorem DeserializationSite.renumber_injective (ρ : Equiv.Perm Int) :
    Function.Injective (renumber ρ) := by
  intro a b hab
  have htype := ρ.injective (congrArg type hab)
  cases a
  cases b
  cases htype
  cases hab
  rfl

/-- A report is another one with the types renumbered. -/
structure FunctionReport.Renumbers (ρ : Equiv.Perm Int) (report report' : FunctionReport) : Prop where
  function : report'.function = report.function
  skipped : report'.skipped = report.skipped
  diagnostics : report.diagnostics.Perm report'.diagnostics
  types : ∀ site, site.renumber ρ ∈ report'.types.sites ↔ site ∈ report.types.sites

private theorem FunctionReport.renumbers_empty (name : String) (skipped : Bool) :
    Renumbers ρ { function := name, skipped := skipped } { function := name, skipped := skipped } :=
  ⟨rfl, rfl, .nil, fun _ => iff_of_false List.not_mem_nil List.not_mem_nil⟩

private theorem Rule.finding_endsRun (r : Rule) (f : Facts) (guards : List Guard) (s : Sink) :
    Safe Fault.EndsRun (r.finding f guards s) := by
  have htexts : Safe Fault.EndsRun s.pathTexts :=
    (Yields.mapM_safe fun q _ => q.display_endsRun).bind fun _ _ => trivial
  have hfields : Safe Fault.EndsRun s.fields := htexts.bind fun _ _ => trivial
  unfold finding
  refine hfields.bind fun fields _ => (Template.fill_endsRun _ _).bind fun message _ => ?_
  exact (Template.fill_endsRun _ _).bind fun hint _ => htexts.bind fun _ _ => trivial

private theorem TypeSet.mem_ofSinks_renumber {name : String} {ss ss' : List Sink}
    (hs : (ss.map (Sink.renumber ρ)).Perm ss') (site : DeserializationSite) :
    site.renumber ρ ∈ (ofSinks name ss').sites ↔ site ∈ (ofSinks name ss).sites := by
  rw [mem_ofSinks, mem_ofSinks]
  constructor
  · rintro ⟨s', hs', t', ht', hsite⟩
    obtain ⟨s, hmem, rfl⟩ := List.mem_map.mp (hs.mem_iff.mpr hs')
    obtain ⟨t, ht, rfl⟩ := Option.map_eq_some_iff.mp ht'
    exact ⟨s, hmem, t, ht, DeserializationSite.renumber_injective ρ hsite⟩
  · rintro ⟨s, hmem, t, ht, rfl⟩
    refine ⟨s.renumber ρ, hs.mem_iff.mp (List.mem_map_of_mem hmem), ρ t, ?_, rfl⟩
    exact Option.map_eq_some_iff.mpr ⟨t, ht, rfl⟩

namespace Program.Renumbers

section Body

variable (h : f.program.Renumbers ρ p')
include h

private theorem findings (r : Rule) {ss ss' : List Sink}
    (hs : (ss.map (Sink.renumber ρ)).Perm ss') :
    Akin List.Perm (r.findings f ss) (r.findings (f.renumber ρ p') ss') := by
  have hempty : ss'.isEmpty = ss.isEmpty := by rw [← hs.isEmpty_eq, List.isEmpty_map]
  have hguards : r.relevantGuards (f.renumber ρ p') = r.relevantGuards f := by
    unfold Rule.relevantGuards
    rw [h.guardsIn]
  unfold Rule.findings
  rw [hempty, hguards]
  split
  · exact .ok .nil
  · refine Akin.bind_self fun guards => ?_
    -- What a sink deserializes plays no part in whether and how it is reported.
    have hsame : ∀ step : Sink → Except Fault (Option Diagnostic),
        (∀ s, step (s.renumber ρ) = step s) →
          collectM step ss = collectM step (ss.map (Sink.renumber ρ)) := by
      intro step hstep
      rw [collectM_map]
      exact congrArg (fun step => collectM step ss) (funext fun s => (hstep s).symm)
    rw [hsame _ fun s => rfl]
    refine Akin.collectM_perm hs fun s _ => ?_
    split
    · trivial
    · exact (r.finding_endsRun f guards s).bind fun _ _ => trivial

private theorem extend {report report' : FunctionReport} (hr : report.Renumbers ρ report')
    (r : Rule) :
    Akin (FunctionReport.Renumbers ρ) (report.extend f r) (report'.extend (f.renumber ρ p') r) := by
  unfold FunctionReport.extend
  split
  · exact .ok hr
  · refine (h.sinksIn r).bind fun ss ss' hs => ?_
    split
    · refine .ok ⟨hr.function, hr.skipped, hr.diagnostics, fun site => ?_⟩
      rw [TypeSet.mem_merge, TypeSet.mem_merge, hr.types]
      exact or_congr_right (TypeSet.mem_ofSinks_renumber hs site)
    · refine (h.findings r hs).bind fun ds ds' hds => .ok ?_
      exact ⟨hr.function, hr.skipped, hr.diagnostics.append hds, hr.types⟩

end Body

private theorem ofBody (h : p.Renumbers ρ p') (rules : List Rule) (fn : Function) :
    Akin (FunctionReport.Renumbers ρ) (FunctionReport.ofBody p rules fn)
      (FunctionReport.ofBody p' rules (fn.renumber ρ)) := by
  unfold FunctionReport.ofBody
  rw [Facts.build_renumber fn p p', bind_exceptMap]
  cases hbuild : Facts.build p fn with
  | error e => exact .same e
  | ok facts =>
    obtain ⟨_, _, _, _, _, hprogram, _⟩ := Facts.build_eq_ok hbuild
    rw [← hprogram] at h
    exact Akin.foldlM (FunctionReport.renumbers_empty fn.name false) fun report report' hr r =>
      h.extend hr r

/-- If the rules come to an end of a function, they do so with its types renumbered. The reports are
the same but for the numbers of types and the order of findings, and so are the notes. -/
theorem ofFunction (h : p.Renumbers ρ p') (rules : List Rule) (fn : Function) :
    Follows (fun a a' => a.1.Renumbers ρ a'.1 ∧ a'.2 = a.2) (FunctionReport.ofFunction p rules fn)
      (FunctionReport.ofFunction p' rules (fn.renumber ρ)) := by
  have hskipped := FunctionReport.renumbers_empty (ρ := ρ) fn.name true
  unfold FunctionReport.ofFunction
  rw [show (fn.renumber ρ).modeled = fn.modeled from rfl,
    show (fn.renumber ρ).name = fn.name from rfl]
  split
  · exact .ok ⟨hskipped, rfl⟩
  · have hbody := h.ofBody rules fn
    generalize FunctionReport.ofBody p rules fn = x at hbody ⊢
    generalize FunctionReport.ofBody p' rules (fn.renumber ρ) = x' at hbody ⊢
    cases hbody with
    | ok hr => exact .ok ⟨hr, rfl⟩
    | same e =>
      dsimp only
      split
      · exact .ok ⟨hskipped, rfl⟩
      · intro a ha
        cases ha
    | ends he he' =>
      intro a ha
      rw [Fault.EndsRun] at he
      simp only [he] at ha
      cases ha

end Program.Renumbers

end AccountLint
