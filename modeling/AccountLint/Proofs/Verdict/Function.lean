import AccountLint.Proofs.Checked
import AccountLint.Verdict.Function

/-! The report on a function is put together from what each rule finds on its own. -/
namespace AccountLint

theorem Category.id_inj {c d : Category} (h : c.id = d.id) : c = d := by
  cases c <;> cases d <;> first | rfl | (revert h; decide)

namespace Rule

/-- What a rule finds in a function; a rule about types finds nothing there. -/
def findingsIn (r : Rule) (f : Facts) : Except Fault (List Diagnostic) :=
  if r.sinks.isEmpty then .ok []
  else do
    let sinks ← r.sinksIn f
    if r.coverage == .structural then return [] else r.findings f sinks

/-- The findings are those for the sinks that are not covered, in their order. -/
theorem findings_eq_ok {r : Rule} {f : Facts} {sinks : List Sink} {ds : List Diagnostic}
    (h : r.findings f sinks = .ok ds) :
    ∃ guards, (sinks = [] ∨ r.relevantGuards f = .ok guards) ∧
      List.Forall₂ (fun s d => r.finding f guards s = .ok d)
        (sinks.filter fun s => !r.isCovered f guards s) ds := by
  unfold findings at h
  cases sinks with
  | nil =>
    obtain rfl := Except.ok.inj h
    exact ⟨[], Or.inl rfl, .nil⟩
  | cons s sinks =>
    obtain ⟨guards, hg, h⟩ := bind_eq_ok.mp h
    exact ⟨guards, Or.inr hg, collectM_unless h⟩

theorem finding_eq_ok {r : Rule} {f : Facts} {guards : List Guard} {s : Sink} {d : Diagnostic}
    (h : r.finding f guards s = .ok d) :
    d.category = r.name ∧ d.errorId = r.errorId ∧ d.severity = r.severity ∧ d.cwe = r.cwe ∧
      d.function = f.function.name ∧ d.location = s.location ∧ d.secondary = s.secondary ∧
      (∃ fields, s.fields = .ok fields ∧
        Template.fill (fields.map fun x => (x.1, Value.text x.2))
          (if s.message.isEmpty then r.message else s.message) = .ok d.message ∧
        Template.fill (fields.map fun x => (x.1, Value.text x.2)) r.hint = .ok d.hint) ∧
      ∃ texts, s.pathTexts = .ok texts ∧ d.evidence = .sink s.block texts guards.length := by
  obtain ⟨fields, hf, h⟩ := bind_eq_ok.mp h
  obtain ⟨message, hm, h⟩ := bind_eq_ok.mp h
  obtain ⟨hint, hh, h⟩ := bind_eq_ok.mp h
  obtain ⟨texts, ht, h⟩ := bind_eq_ok.mp h
  obtain rfl := pure_eq_ok.mp h
  exact ⟨rfl, rfl, rfl, rfl, rfl, rfl, rfl, ⟨fields, hf, hm, hh⟩, texts, ht, rfl⟩

/-- What a rule finds in a function is found for a sink. -/
theorem exists_finding_of_mem_findingsIn {r : Rule} {f : Facts} {ds : List Diagnostic}
    (h : r.findingsIn f = .ok ds) {d : Diagnostic} (hd : d ∈ ds) :
    ∃ guards s, r.finding f guards s = .ok d := by
  unfold findingsIn at h
  split at h
  · obtain rfl := Except.ok.inj h
    cases hd
  · obtain ⟨sinks, _, h⟩ := bind_eq_ok.mp h
    split at h
    · obtain rfl := pure_eq_ok.mp h
      cases hd
    · obtain ⟨guards, _, hall⟩ := findings_eq_ok h
      obtain ⟨s, _, hs⟩ := exists_of_forall₂_right hall hd
      exact ⟨guards, s, hs⟩

/-- A rule finds only what is of its own category. -/
theorem category_of_mem_findingsIn {r : Rule} {f : Facts} {ds : List Diagnostic}
    (h : r.findingsIn f = .ok ds) {d : Diagnostic} (hd : d ∈ ds) : d.category = r.name := by
  obtain ⟨guards, s, hs⟩ := exists_finding_of_mem_findingsIn h hd
  exact (finding_eq_ok hs).1

end Rule

namespace FunctionReport

theorem extend_eq_ok {report report' : FunctionReport} {f : Facts} {r : Rule}
    (h : report.extend f r = .ok report') :
    ∃ ds, r.findingsIn f = .ok ds ∧ report'.diagnostics = report.diagnostics ++ ds := by
  unfold extend at h
  unfold Rule.findingsIn
  split at h
  · rename_i hempty
    obtain rfl := Except.ok.inj h
    exact ⟨[], by rw [if_pos hempty], by simp⟩
  · rename_i hempty
    rw [if_neg hempty]
    obtain ⟨sinks, hs, h⟩ := bind_eq_ok.mp h
    split at h
    · rename_i hc
      obtain rfl := pure_eq_ok.mp h
      exact ⟨[], bind_eq_ok.mpr ⟨sinks, hs, by rw [if_pos hc]; rfl⟩, by simp⟩
    · rename_i hc
      obtain ⟨ds, hd, h⟩ := bind_eq_ok.mp h
      obtain rfl := pure_eq_ok.mp h
      exact ⟨ds, bind_eq_ok.mpr ⟨sinks, hs, by rw [if_neg hc]; exact hd⟩, rfl⟩

theorem foldlM_extend_eq_ok {f : Facts} {rules : List Rule} {report report' : FunctionReport}
    (h : rules.foldlM (fun report r => report.extend f r) report = .ok report') :
    ∃ dss, List.Forall₂ (fun (r : Rule) ds => r.findingsIn f = .ok ds) rules dss ∧
      report'.diagnostics = report.diagnostics ++ dss.flatten := by
  induction rules generalizing report with
  | nil =>
    obtain rfl := pure_eq_ok.mp h
    exact ⟨[], .nil, by simp⟩
  | cons r rules ih =>
    rw [List.foldlM_cons] at h
    obtain ⟨next, hn, h⟩ := bind_eq_ok.mp h
    obtain ⟨ds, hd, hnext⟩ := extend_eq_ok hn
    obtain ⟨dss, hds, hrest⟩ := ih h
    refine ⟨ds :: dss, .cons hd hds, ?_⟩
    rw [hrest, hnext, List.flatten_cons, List.append_assoc]

private theorem filter_flatten_findingsIn {f : Facts} {rules : List Rule}
    {dss : List (List Diagnostic)}
    (h : List.Forall₂ (fun (r : Rule) ds => r.findingsIn f = .ok ds) rules dss) (c : Category) :
    ∃ dss', List.Forall₂ (fun (r : Rule) ds => r.findingsIn f = .ok ds)
        (rules.filter (·.category == c)) dss' ∧
      dss.flatten.filter (·.category == c.id) = dss'.flatten := by
  induction h with
  | nil => exact ⟨[], .nil, rfl⟩
  | @cons r ds rules dss hr _ ih =>
    obtain ⟨dss', hds', hflat⟩ := ih
    have hcat := fun d hd => Rule.category_of_mem_findingsIn (d := d) hr hd
    by_cases hc : r.category = c
    · refine ⟨ds :: dss', ?_, ?_⟩
      · rw [List.filter_cons_of_pos (by simp [hc])]
        exact .cons hr hds'
      · rw [List.flatten_cons, List.filter_append, hflat, List.flatten_cons]
        congr 1
        refine List.filter_eq_self.mpr fun d hd => ?_
        simp [hcat d hd, Rule.name, hc]
    · refine ⟨dss', ?_, ?_⟩
      · rw [List.filter_cons_of_neg (by simp [hc])]
        exact hds'
      · have hnone : ds.filter (·.category == c.id) = [] := by
          refine List.filter_eq_nil_iff.mpr fun d hd => ?_
          rw [hcat d hd, beq_iff_eq]
          exact fun h => hc (Category.id_inj h)
        rw [List.flatten_cons, List.filter_append, hflat, hnone, List.nil_append]

/-- The findings of a category are those of the rules of the category. -/
theorem ofBody_category {p : Program} {rules : List Rule} {f : Function} {report : FunctionReport}
    (h : ofBody p rules f = .ok report) (c : Category) :
    ∃ facts, Facts.build p f = .ok facts ∧
      ∃ dss, List.Forall₂ (fun (r : Rule) ds => r.findingsIn facts = .ok ds)
          (rules.filter (·.category == c)) dss ∧
        report.diagnostics.filter (·.category == c.id) = dss.flatten := by
  obtain ⟨facts, hfacts, h⟩ := bind_eq_ok.mp h
  refine ⟨facts, hfacts, ?_⟩
  obtain ⟨dss, hds, hall⟩ := foldlM_extend_eq_ok h
  rw [hall, List.nil_append]
  exact filter_flatten_findingsIn hds c

end FunctionReport
end AccountLint
