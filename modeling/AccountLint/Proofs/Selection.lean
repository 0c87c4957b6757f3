import AccountLint.Proofs.Order
import AccountLint.Proofs.Total.Run
import AccountLint.Proofs.Verdict.Function
import AccountLint.Proofs.Verdict.Program

/-! Categories are independent: what a run finds in some categories is what the run with all of them
finds there. -/
namespace AccountLint

def Config.selects (c : Config) (d : Diagnostic) : Bool :=
  Category.all.any fun k => c.runs k && k.id == d.category

private theorem Config.selects_iff {c : Config} {d : Diagnostic} {k : Category}
    (h : d.category = k.id) :
    c.selects d = c.runs k := by
  rw [Bool.eq_iff_iff]
  unfold selects
  rw [List.any_eq_true]
  constructor
  · rintro ⟨k', _, hk'⟩
    obtain ⟨hruns, hid⟩ := Bool.and_eq_true_iff.mp hk'
    rw [← Category.id_inj ((beq_iff_eq.mp hid).trans h)]
    exact hruns
  · intro hruns
    exact ⟨k, Category.mem_all k, by simp [hruns, h]⟩

/-- Findings that are all of the category of a rule are kept or left out together with it. -/
theorem Config.filter_selects {c : Config} {r : Rule} {ds : List Diagnostic}
    (h : ∀ d ∈ ds, d.category = r.name) :
    ds.filter c.selects = if c.runs r.category then ds else [] := by
  split
  · rename_i hruns
    exact List.filter_eq_self.mpr fun d hd => (selects_iff (h d hd)).trans hruns
  · rename_i hruns
    refine List.filter_eq_nil_iff.mpr fun d hd => ?_
    rw [selects_iff (h d hd)]
    exact hruns

def Config.ruleSelection (c : Config) (rules : List Rule) : List Rule :=
  rules.filter fun r => c.runs r.category

private theorem Config.enabled_apply (c : Config) {g : Registry}
    (h : ∀ r ∈ g.rules, r.enabled = true) :
    (c.apply g).1.enabled = c.ruleSelection g.rules := by
  unfold apply Registry.enabled ruleSelection
  rw [List.filter_map]
  have hsame : ∀ r ∈ g.rules.filter fun r => c.runs r.category,
      ({ r with enabled := c.runs r.category } : Rule) = r := by
    intro r hr
    obtain ⟨hmem, hruns⟩ := List.mem_filter.mp hr
    have hon := h r hmem
    cases r
    simp_all
  exact (List.map_congr_left hsame).trans (List.map_id _)

/-- Rules whose findings are gathered one after the other, each of its own category. -/
theorem concatM_ruleSelection {step : Rule → Except Fault (List Diagnostic)}
    (hcategory : ∀ r ds, step r = .ok ds → ∀ d ∈ ds, d.category = r.name) (c : Config)
    {rules : List Rule} {ds : List Diagnostic} (h : concatM step rules = .ok ds) :
    concatM step (c.ruleSelection rules) = .ok (ds.filter c.selects) := by
  obtain ⟨dss, hall, rfl⟩ := concatM_eq_ok.mp h
  clear h
  unfold Config.ruleSelection
  induction hall with
  | nil => rfl
  | @cons r ds rules dss hr _ ih =>
    rw [List.flatten_cons, List.filter_append, Config.filter_selects (hcategory r ds hr),
      List.filter_cons]
    split
    · rw [concatM, hr, ih]
      rfl
    · rw [ih, List.nil_append]

namespace FunctionReport

/-- A report and what a configuration leaves of it: the findings in categories that run and, if the
category about types does, the types. -/
structure Selected (c : Config) (report selected : FunctionReport) : Prop where
  function : selected.function = report.function
  skipped : selected.skipped = report.skipped
  diagnostics : selected.diagnostics = report.diagnostics.filter c.selects
  types : c.runs .typeCosplay = true → selected.types = report.types

variable {c : Config} {f : Facts} {r : Rule} {report next selected : FunctionReport}

private theorem Selected.extend_kept (hs : Selected c report selected)
    (hruns : c.runs r.category = true) (h : report.extend f r = .ok next) :
    ∃ next', selected.extend f r = .ok next' ∧ Selected c next next' := by
  obtain ⟨ds, hds, hnext⟩ := extend_eq_ok h
  have hcategory := Config.filter_selects (c := c) (r := r) fun d hd =>
    Rule.category_of_mem_findingsIn hds hd
  rw [if_pos hruns] at hcategory
  unfold extend at h ⊢
  split at h
  · rename_i hempty
    obtain rfl := Except.ok.inj h
    exact ⟨selected, by rw [if_pos hempty], hs⟩
  · rename_i hempty
    rw [if_neg hempty]
    obtain ⟨sinks, hsinks, h⟩ := bind_eq_ok.mp h
    split at h
    · rename_i hc
      obtain rfl := pure_eq_ok.mp h
      refine ⟨_, bind_eq_ok.mpr ⟨sinks, hsinks, by rw [if_pos hc]; rfl⟩, ?_⟩
      exact ⟨hs.function, hs.skipped, hs.diagnostics, fun ht => by rw [hs.types ht]⟩
    · rename_i hc
      obtain ⟨ds', hds', h⟩ := bind_eq_ok.mp h
      obtain rfl := pure_eq_ok.mp h
      obtain rfl := List.append_cancel_left hnext
      refine ⟨_, bind_eq_ok.mpr ⟨sinks, hsinks, by rw [if_neg hc, hds']; rfl⟩, ?_⟩
      refine ⟨hs.function, hs.skipped, ?_, hs.types⟩
      rw [List.filter_append, hcategory, hs.diagnostics]

private theorem Selected.extend_left_out (hs : Selected c report selected)
    (hruns : ¬c.runs r.category = true) (hr : r.coverage = .structural → r.category = .typeCosplay)
    (h : report.extend f r = .ok next) : Selected c next selected := by
  obtain ⟨ds, hds, hnext⟩ := extend_eq_ok h
  have hcategory := Config.filter_selects (c := c) (r := r) fun d hd =>
    Rule.category_of_mem_findingsIn hds hd
  rw [if_neg hruns] at hcategory
  have hdiagnostics : selected.diagnostics = next.diagnostics.filter c.selects := by
    rw [hnext, List.filter_append, hcategory, List.append_nil, hs.diagnostics]
  unfold extend at h
  split at h
  · obtain rfl := Except.ok.inj h
    exact hs
  · obtain ⟨sinks, hsinks, h⟩ := bind_eq_ok.mp h
    split at h
    · rename_i hc
      obtain rfl := pure_eq_ok.mp h
      refine ⟨hs.function, hs.skipped, hdiagnostics, fun ht => ?_⟩
      rw [hr (beq_iff_eq.mp hc)] at hruns
      exact absurd ht hruns
    · obtain ⟨ds', hds', h⟩ := bind_eq_ok.mp h
      obtain rfl := pure_eq_ok.mp h
      exact ⟨hs.function, hs.skipped, hdiagnostics, hs.types⟩

/-- Rules that are left out change nothing in the report of the others. -/
theorem Selected.foldlM_extend {rules : List Rule}
    (hrules : ∀ r ∈ rules, r.coverage = .structural → r.category = .typeCosplay)
    (hs : Selected c report selected)
    (h : rules.foldlM (fun report r => report.extend f r) report = .ok next) :
    ∃ next', (c.ruleSelection rules).foldlM (fun report r => report.extend f r) selected = .ok next' ∧
      Selected c next next' := by
  unfold Config.ruleSelection
  induction rules generalizing report selected with
  | nil =>
    obtain rfl := pure_eq_ok.mp h
    exact ⟨selected, rfl, hs⟩
  | cons r rules ih =>
    rw [List.foldlM_cons] at h
    obtain ⟨report', hr, h⟩ := bind_eq_ok.mp h
    have hrest := fun q hq => hrules q (List.mem_cons_of_mem _ hq)
    rw [List.filter_cons]
    split
    · rename_i hruns
      obtain ⟨selected', hr', hs'⟩ := hs.extend_kept hruns hr
      obtain ⟨next', hnext', hs''⟩ := ih hrest hs' h
      exact ⟨next', by rw [List.foldlM_cons, hr']; exact hnext', hs''⟩
    · rename_i hruns
      exact ih hrest (hs.extend_left_out hruns (hrules r List.mem_cons_self) hr) h

/-- The report of the rules of some categories is what they leave of the report of all rules, unless
a rule rejects the model of the function. -/
theorem ofFunction_ruleSelection {p : Program} {rules : List Rule}
    (hrules : ∀ r ∈ rules, r.coverage = .structural → r.category = .typeCosplay) (c : Config)
    {f : Function} {answer : FunctionReport × List Note}
    (h : ofFunction p rules f = .ok answer)
    (hskip : answer.1.skipped = true → f.modeled = false ∨ f.validate ≠ .ok ()) :
    ∃ answer', ofFunction p (c.ruleSelection rules) f = .ok answer' ∧
      Selected c answer.1 answer'.1 := by
  have hself : Selected c { function := f.name, skipped := true }
      { function := f.name, skipped := true } := ⟨rfl, rfl, rfl, fun _ => rfl⟩
  unfold ofFunction at h ⊢
  cases hmodeled : f.modeled with
  | false =>
    rw [hmodeled] at h
    obtain rfl := Except.ok.inj h
    exact ⟨_, rfl, hself⟩
  | true =>
    rw [hmodeled] at h
    simp only [Bool.not_true, Bool.false_eq_true, if_false] at h ⊢
    cases hbody : ofBody p rules f with
    | ok report =>
      rw [hbody] at h
      obtain rfl := Except.ok.inj h
      obtain ⟨facts, hfacts, hrun⟩ := bind_eq_ok.mp hbody
      obtain ⟨report', hrun', hs⟩ :=
        Selected.foldlM_extend (c := c) hrules ⟨rfl, rfl, rfl, fun _ => rfl⟩ hrun
      have hbody' : ofBody p (c.ruleSelection rules) f = .ok report' :=
        bind_eq_ok.mpr ⟨facts, hfacts, hrun'⟩
      rw [hbody']
      exact ⟨_, rfl, hs⟩
    | error e =>
      rw [hbody] at h
      simp only at h
      split at h
      · obtain rfl := Except.ok.inj h
        -- The function is skipped, so that it is rejected before any rule looks at it.
        have hvalid := (hskip rfl).resolve_left (by simp [hmodeled])
        cases hv : f.validate with
        | ok u => exact absurd hv hvalid
        | error e' =>
          have hreject : ∀ rules, ofBody p rules f = .error e' := by
            intro rules
            unfold ofBody Facts.build
            rw [hv]
            rfl
          rw [hreject rules] at hbody
          obtain rfl := Except.error.inj hbody
          rw [hreject]
          rename_i hrejects
          simp only [hrejects, if_true]
          exact ⟨_, rfl, hself⟩
      · cases h

end FunctionReport

private theorem mergedTypes_selected {c : Config} (hruns : c.runs .typeCosplay = true)
    {reports selected : List FunctionReport}
    (h : List.Forall₂ (FunctionReport.Selected c) reports selected) :
    mergedTypes selected = mergedTypes reports := by
  have hfold : ∀ set : TypeSet,
      selected.foldl (fun set r => if r.skipped then set else set.merge r.types) set =
        reports.foldl (fun set r => if r.skipped then set else set.merge r.types) set := by
    induction h with
    | nil => exact fun _ => rfl
    | cons hs _ ih =>
      intro set
      rw [List.foldl_cons, List.foldl_cons, hs.skipped, hs.types hruns]
      exact ih _
  exact hfold {}

private theorem diagnostics_selected {c : Config} {reports selected : List FunctionReport}
    (h : List.Forall₂ (FunctionReport.Selected c) reports selected) :
    (selected.filter (!·.skipped)).flatMap (·.diagnostics) =
      ((reports.filter (!·.skipped)).flatMap (·.diagnostics)).filter c.selects := by
  induction h with
  | nil => rfl
  | cons hs _ ih =>
    rw [List.filter_cons, List.filter_cons, hs.skipped]
    split
    · rw [List.flatMap_cons, List.flatMap_cons, List.filter_append, ih, hs.diagnostics]
    · exact ih

/-- If the category about types runs, no rule about types is left out. -/
theorem Config.find?_ruleSelection {c : Config} {rules : List Rule}
    (hrules : ∀ r ∈ rules, r.coverage = .structural → r.category = .typeCosplay)
    (hruns : c.runs .typeCosplay = true) :
    (c.ruleSelection rules).find? (·.coverage == .structural) =
      rules.find? (·.coverage == .structural) := by
  unfold ruleSelection
  induction rules with
  | nil => rfl
  | cons r rules ih =>
    have hrest := ih fun q hq => hrules q (List.mem_cons_of_mem _ hq)
    rw [List.filter_cons]
    split
    · rw [List.find?_cons, List.find?_cons, hrest]
    · rename_i hleft
      have hc : (r.coverage == Coverage.structural) = false := by
        refine beq_eq_false_iff_ne.mpr fun hc => ?_
        rw [hrules r List.mem_cons_self hc] at hleft
        exact hleft hruns
      simp only [List.find?_cons, hc, hrest]

/-- The rule about types judges the same types or is left out. -/
theorem typeFindings_selected {p : Program} {tags : List Value} {rules : List Rule} (c : Config)
    (hrules : ∀ r ∈ rules, r.coverage = .structural → r.category = .typeCosplay)
    {reports selected : List FunctionReport}
    (h : List.Forall₂ (FunctionReport.Selected c) reports selected) {ds : List Diagnostic}
    (hds : typeFindings p tags rules (mergedTypes reports) = .ok ds) :
    typeFindings p tags (c.ruleSelection rules) (mergedTypes selected) =
      .ok (ds.filter c.selects) := by
  have hstructural : ∀ r, rules.find? (·.coverage == .structural) = some r →
      r.category = .typeCosplay := by
    intro r hr
    have hc := List.find?_some (p := fun r : Rule => r.coverage == .structural) hr
    exact hrules r (List.mem_of_find?_eq_some hr) (beq_iff_eq.mp hc)
  by_cases hruns : c.runs .typeCosplay = true
  · have hfind := Config.find?_ruleSelection hrules hruns
    have hsame : typeFindings p tags (c.ruleSelection rules) (mergedTypes selected) =
        typeFindings p tags rules (mergedTypes reports) := by
      unfold typeFindings
      rw [hfind, mergedTypes_selected hruns h]
    rw [hsame, hds]
    cases hr : rules.find? (·.coverage == .structural) with
    | none =>
      unfold typeFindings at hds
      rw [hr] at hds
      obtain rfl := Except.ok.inj hds
      rfl
    | some r =>
      rw [Config.filter_selects fun d hd => category_of_mem_typeFindings hr hds hd,
        hstructural r hr, if_pos hruns]
  · have hnone : (c.ruleSelection rules).find? (·.coverage == .structural) = none := by
      refine List.find?_eq_none.mpr fun r hr => ?_
      obtain ⟨hmem, hrun⟩ := List.mem_filter.mp hr
      intro hc
      rw [hrules r hmem (beq_iff_eq.mp hc)] at hrun
      exact hruns hrun
    unfold typeFindings at hds ⊢
    rw [hnone]
    cases hr : rules.find? (·.coverage == .structural) with
    | none =>
      rw [hr] at hds
      obtain rfl := Except.ok.inj hds
      rfl
    | some r =>
      have hcategory : ∀ d ∈ ds, d.category = r.name := fun d hd =>
        category_of_mem_typeFindings hr (by unfold typeFindings; exact hds) hd
      rw [Config.filter_selects hcategory, hstructural r hr, if_neg hruns]

/-- Running the rules of some categories gives what all rules find in these categories. -/
theorem runRules_selected {p : Program} {tags : List Value} {rules : List Rule} (c : Config)
    (hrules : ∀ r ∈ rules, r.coverage = .structural → r.category = .typeCosplay)
    {answer : RunResult × List Note} (h : runRules p rules tags = .ok answer)
    (hskip : ∀ f ∈ p.functions, ∀ report notes,
      FunctionReport.ofFunction p rules f = .ok (report, notes) → report.skipped = true →
      f.modeled = false ∨ f.validate ≠ .ok ()) :
    ∃ answer', runRules p (c.ruleSelection rules) tags = .ok answer' ∧
      answer'.1.diagnostics = answer.1.diagnostics.filter c.selects ∧
      answer'.1.skipped = answer.1.skipped := by
  obtain ⟨reports, hreports, h⟩ := bind_eq_ok.mp h
  obtain ⟨ds, hds, h⟩ := bind_eq_ok.mp h
  obtain rfl := pure_eq_ok.mp h
  have hall := mapM_eq_ok.mp hreports
  have hstep : ∀ f ∈ p.functions, ∃ answer',
      FunctionReport.ofFunction p (c.ruleSelection rules) f = .ok answer' ∧
      ∀ answer, FunctionReport.ofFunction p rules f = .ok answer →
        FunctionReport.Selected c answer.1 answer'.1 := by
    intro f hf
    obtain ⟨⟨report, notes⟩, _, hanswer⟩ := exists_of_forall₂_left hall hf
    obtain ⟨answer', hanswer', hs⟩ := FunctionReport.ofFunction_ruleSelection hrules c hanswer
      (hskip f hf report notes hanswer)
    refine ⟨answer', hanswer', fun answer h => ?_⟩
    rw [hanswer] at h
    obtain rfl := Except.ok.inj h
    exact hs
  obtain ⟨selected, hselected, hboth⟩ := exists_mapM_eq_ok hstep
  have hpairs : List.Forall₂ (fun a a' => FunctionReport.Selected c a.1 a'.1) reports selected :=
    (forall₂_comp hall.flip hboth).imp fun a a' h => by
      obtain ⟨f, hf, hs⟩ := h
      exact hs a hf
  have hfirst : List.Forall₂ (FunctionReport.Selected c) (reports.map (·.1)) (selected.map (·.1)) :=
    List.forall₂_map_left_iff.mpr (List.forall₂_map_right_iff.mpr hpairs)
  obtain ⟨types, htypes, hds⟩ := bind_eq_ok.mp hds
  obtain ⟨declarations, hdeclarations, hds⟩ := bind_eq_ok.mp hds
  obtain rfl := pure_eq_ok.mp hds
  have hfindings : programFindings p (c.ruleSelection rules) tags (selected.map (·.1)) =
      .ok (Diagnostic.sort ((((reports.map (·.1)).filter (!·.skipped)).flatMap (·.diagnostics) ++
        types ++ declarations).filter c.selects)) := by
    unfold programFindings
    rw [typeFindings_selected c hrules hfirst htypes, diagnostics_selected hfirst]
    have hdeclared : concatM (fun r => r.declarationFindings p) (c.ruleSelection rules) =
        .ok (declarations.filter c.selects) :=
      concatM_ruleSelection (fun r ds hr d hd => Rule.category_of_mem_declarationFindings hr hd) c
        hdeclarations
    rw [hdeclared, List.filter_append, List.filter_append]
    rfl
  refine ⟨_, bind_eq_ok.mpr ⟨selected, hselected, bind_eq_ok.mpr ⟨_, hfindings, rfl⟩⟩, ?_, ?_⟩
  · exact (Diagnostic.filter_sort c.selects _).symm
  · have hfilter := List.rel_filter (p := fun a => a.1.skipped) (q := fun a => a.1.skipped)
      (fun a a' hs => by beta_reduce; rw [hs.skipped]) hpairs
    exact (map_eq_of_forall₂ hfilter fun a _ a' hs => hs.function.symm).symm

private theorem Rule.structural_of_mem_defaults {r : Rule} (h : r ∈ defaults)
    (hc : r.coverage = .structural) :
    r.category = .typeCosplay := by
  obtain ⟨k, _, rfl⟩ := List.mem_map.mp h
  cases k <;> first | rfl | cases hc

private theorem Rule.enabled_of_mem_defaults {r : Rule} (h : r ∈ defaults) : r.enabled = true := by
  obtain ⟨k, _, rfl⟩ := List.mem_map.mp h
  cases k <;> rfl

/-- If the run with all default rules has a result, and skips only functions that have no body or a
malformed one, then so does the run with any selection of categories. Its findings are those of the
full run in the categories that it selects, in the same order, and it skips the same functions. -/
theorem lint_selection {p : Program} (c : Config) {result : RunResult} {notes : List Note}
    (hfull : lint .default { c with enabled := [], disabled := [] } p = .ok (result, notes))
    (hskip : ∀ f ∈ p.functions, ∀ report notes,
      FunctionReport.ofFunction p Rule.defaults f = .ok (report, notes) → report.skipped = true →
      f.modeled = false ∨ f.validate ≠ .ok ()) :
    ∃ result' notes', lint .default c p = .ok (result', notes') ∧
      result'.diagnostics = result.diagnostics.filter c.selects ∧
      result'.skipped = result.skipped := by
  obtain ⟨answer, hanswer, heq⟩ := bind_eq_ok.mp hfull
  have hanswer : runRules p Rule.defaults c.tags = .ok answer := hanswer
  obtain ⟨answer', hanswer', hdiagnostics, hskipped⟩ :=
    runRules_selected c (fun r hr hc => Rule.structural_of_mem_defaults hr hc) hanswer hskip
  have henabled : (c.apply .default).1.enabled = c.ruleSelection Rule.defaults :=
    c.enabled_apply fun r hr => Rule.enabled_of_mem_defaults hr
  have hresult : answer.1 = result := (Prod.mk.inj (pure_eq_ok.mp heq)).1
  rw [← hresult]
  rw [← henabled] at hanswer'
  exact ⟨answer'.1, _, bind_eq_ok.mpr ⟨answer', hanswer', rfl⟩, hdiagnostics, hskipped⟩

/-- A program with a function that has no body, and one that deserializes a type from account data
without a signer. -/
def Program.deserializing : Program :=
  { types := [
      { id := 0, path := .text Paths.context },
      { id := 1, path := .text "crate::State", kind := .struct }]
    functions := [
      { name := "external", modeled := false },
      { name := "load", params := [{ name := .text "ctx", type := some (.index 0) }]
        exprs := [
          { id := 0, kind := .localVar, localName := "account" },
          { id := 1, kind := .field, name := some (.text "data"), receiver := some 0 },
          { id := 2, kind := .call, name := some (.text "State::try_from_slice"), operands := [1]
            type := some (.index 1) }]
        blocks := [{ id := 0, stmts := [{ kind := .eval, value := 2 }] }] }] }

theorem lint_selection_deserializing :
    ∃ result notes result' notes',
      lint .default {} .deserializing = .ok (result, notes) ∧
      (∀ f ∈ Program.deserializing.functions, ∀ report notes,
        FunctionReport.ofFunction .deserializing Rule.defaults f = .ok (report, notes) →
        report.skipped = true → f.modeled = false ∨ f.validate ≠ .ok ()) ∧
      lint .default { disabled := [.missingSignerCheck] } .deserializing = .ok (result', notes') ∧
      result'.diagnostics =
        result.diagnostics.filter ({ disabled := [.missingSignerCheck] } : Config).selects ∧
      result'.skipped = result.skipped ∧
      result.diagnostics.map (·.category) = ["missing-signer-check", "type-cosplay"] ∧
      result.skipped = ["external"] := by
  have hfull : (lint .default {} .deserializing).toOption.map
      (fun a => (a.1.diagnostics.map (·.category), a.1.skipped)) =
        some (["missing-signer-check", "type-cosplay"], ["external"]) := by
    decide +kernel
  have hload : ∀ f ∈ Program.deserializing.functions, f.modeled = false ∨
      (FunctionReport.ofFunction .deserializing Rule.defaults f).toOption.map (·.1.skipped) =
        some false := by
    decide +kernel
  have hskip : ∀ f ∈ Program.deserializing.functions, ∀ report notes,
      FunctionReport.ofFunction .deserializing Rule.defaults f = .ok (report, notes) →
      report.skipped = true → f.modeled = false ∨ f.validate ≠ .ok () := by
    intro f hf report notes hreport hskipped
    rcases hload f hf with hmodeled | hnot
    · exact Or.inl hmodeled
    · rw [hreport] at hnot
      exact absurd (hskipped.symm.trans (Option.some.inj hnot)) (by decide)
  obtain ⟨⟨result, notes⟩, hrun, hvalue⟩ := Option.map_eq_some_iff.mp hfull
  obtain ⟨hcategories, hskipped⟩ := Prod.mk.inj hvalue
  have hrun := ok_of_toOption hrun
  obtain ⟨result', notes', hrun', hdiagnostics, hsame⟩ :=
    lint_selection { disabled := [.missingSignerCheck] } hrun hskip
  exact ⟨result, notes, result', notes', hrun, hskip, hrun', hdiagnostics, hsame, hcategories,
    hskipped⟩

end AccountLint
