import AccountLint.Proofs.Checked
import AccountLint.Proofs.Cosplay.TypeSet
import AccountLint.Proofs.Reordering.Function
import AccountLint.Verdict.Run

/-! The findings of a run depend on the functions that are not skipped, but not on their order. -/
namespace AccountLint

theorem typeFindings_congr {s t : TypeSet} (h : s.sites.Perm t.sites) (p : Program)
    (tags : List Value) (rules : List Rule) :
    typeFindings p tags rules s = typeFindings p tags rules t := by
  have hids := TypeSet.ids_congr h
  have hverdict : s.verdict p tags = t.verdict p tags := by
    unfold TypeSet.verdict TypeSet.types TypeSet.judge
    rw [hids, TypeSet.sitesOf_congr h]
  have hsize : s.size = t.size := congrArg List.length hids
  unfold typeFindings Rule.typeFinding
  rw [hverdict, hsize]

theorem nodup_mergedTypes (reports : List FunctionReport) : (mergedTypes reports).sites.Nodup := by
  unfold mergedTypes
  generalize hset : ({} : TypeSet) = set
  have hnodup : set.sites.Nodup := hset ▸ List.nodup_nil
  clear hset
  induction reports generalizing set with
  | nil => exact hnodup
  | cons r reports ih =>
    rw [List.foldl_cons]
    apply ih
    split
    · exact hnodup
    · exact TypeSet.nodup_merge hnodup r.types

/-- The sites of merged reports are those of the functions that are not skipped. -/
theorem mem_mergedTypes {reports : List FunctionReport} {site : DeserializationSite} :
    site ∈ (mergedTypes reports).sites ↔
      ∃ r ∈ reports.filter (!·.skipped), site ∈ r.types.sites := by
  have hfold : ∀ set : TypeSet,
      site ∈ (reports.foldl (fun set r => if r.skipped then set else set.merge r.types) set).sites ↔
        site ∈ set.sites ∨ ∃ r ∈ reports.filter (!·.skipped), site ∈ r.types.sites := by
    induction reports with
    | nil => simp
    | cons r reports ih =>
      intro set
      rw [List.foldl_cons, ih, List.filter_cons]
      cases r.skipped with
      | true => rfl
      | false =>
        simp only [Bool.not_false, if_true, if_false, Bool.false_eq_true, TypeSet.mem_merge,
          List.exists_mem_cons_iff, or_assoc]
  refine (hfold {}).trans ?_
  simp

/-- Merging reports in another order, or with further ones that are skipped, gives the same sites.
-/
theorem mergedTypes_perm {reports reports' : List FunctionReport}
    (h : (reports.filter (!·.skipped)).Perm (reports'.filter (!·.skipped))) :
    (mergedTypes reports).sites.Perm (mergedTypes reports').sites := by
  refine (List.perm_ext_iff_of_nodup (nodup_mergedTypes _) (nodup_mergedTypes _)).mpr fun site => ?_
  rw [mem_mergedTypes, mem_mergedTypes]
  exact exists_congr fun r => and_congr_left' h.mem_iff

/-- The findings of a program depend on the reports on functions that are not skipped, and so does
their order but for level ones. -/
theorem programFindings_perm {p : Program} {rules : List Rule} {tags : List Value}
    {reports reports' : List FunctionReport}
    (h : (reports.filter (!·.skipped)).Perm (reports'.filter (!·.skipped))) {ds : List Diagnostic}
    (hds : programFindings p rules tags reports = .ok ds) :
    ∃ ds', programFindings p rules tags reports' = .ok ds' ∧ ds.Perm ds' ∧
      ds.map Diagnostic.sortKey = ds'.map Diagnostic.sortKey := by
  obtain ⟨types, htypes, hds⟩ := bind_eq_ok.mp hds
  obtain ⟨declarations, hdeclarations, hds⟩ := bind_eq_ok.mp hds
  obtain rfl := pure_eq_ok.mp hds
  have hperm := ((h.flatMap_right FunctionReport.diagnostics).append_right types).append_right
    declarations
  refine ⟨_, bind_eq_ok.mpr ⟨types, ?_, bind_eq_ok.mpr ⟨declarations, hdeclarations, rfl⟩⟩, ?_, ?_⟩
  · rw [← htypes]
    exact typeFindings_congr (mergedTypes_perm h).symm p tags rules
  · exact (sortBy_perm _ _).trans (hperm.trans (sortBy_perm _ _).symm)
  · exact Diagnostic.map_sortKey_sort hperm

/-- The report on a function, if the rules come to the end of it. -/
def Function.reportBy (f : Function) (p : Program) (rules : List Rule) : Option FunctionReport :=
  (FunctionReport.ofFunction p rules f).toOption.map (·.1)

def Function.isSkippedBy (f : Function) (p : Program) (rules : List Rule) : Bool :=
  (f.reportBy p rules).any (·.skipped)

private theorem Function.reportBy_eq_some {f : Function} {p : Program} {rules : List Rule}
    {answer : FunctionReport × List Note} (h : FunctionReport.ofFunction p rules f = .ok answer) :
    f.reportBy p rules = some answer.1 := by
  unfold reportBy
  rw [h]
  rfl

/-- The reports on functions that are not skipped. -/
theorem filter_reports {p : Program} {rules : List Rule} {functions : List Function}
    {answers : List (FunctionReport × List Note)}
    (h : List.Forall₂ (fun f a => FunctionReport.ofFunction p rules f = .ok a) functions answers) :
    (answers.map (·.1)).filter (!·.skipped) =
      (functions.filter (!·.isSkippedBy p rules)).filterMap (·.reportBy p rules) := by
  induction h with
  | nil => rfl
  | @cons f answer functions answers hf _ ih =>
    have hreport := Function.reportBy_eq_some hf
    have hskipped : f.isSkippedBy p rules = answer.1.skipped := by
      unfold Function.isSkippedBy
      rw [hreport]
      rfl
    rw [List.map_cons, List.filter_cons, List.filter_cons, hskipped, ih]
    split
    · rw [List.filterMap_cons, hreport]
    · rfl

variable {p : Program} {rules : List Rule} {tags : List Value}

/-- If the functions that are not skipped are the same, so are the findings. -/
theorem runRules_perm {functions : List Function}
    (h : (p.functions.filter (!·.isSkippedBy p rules)).Perm
      (functions.filter (!·.isSkippedBy p rules)))
    {answer : RunResult × List Note} (hrun : runRules p rules tags = .ok answer) :
    ∃ answer', runRules (p.withFunctions functions) rules tags = .ok answer' ∧
      answer.1.diagnostics.Perm answer'.1.diagnostics ∧
      answer.1.diagnostics.map Diagnostic.sortKey = answer'.1.diagnostics.map Diagnostic.sortKey := by
  obtain ⟨answers, hanswers, hrun⟩ := bind_eq_ok.mp hrun
  obtain ⟨ds, hds, hrun⟩ := bind_eq_ok.mp hrun
  obtain rfl := pure_eq_ok.mp hrun
  have hall := mapM_eq_ok.mp hanswers
  -- A function without a report would be among those that are not skipped, and these have reports.
  have hreport : ∀ f ∈ functions, ∃ answer, FunctionReport.ofFunction p rules f = .ok answer := by
    intro f hf
    cases hskipped : f.isSkippedBy p rules with
    | false =>
      have hmem : f ∈ functions.filter (!·.isSkippedBy p rules) :=
        List.mem_filter.mpr ⟨hf, by rw [hskipped]; rfl⟩
      obtain ⟨answer, _, hanswer⟩ :=
        exists_of_forall₂_left hall (List.mem_filter.mp (h.mem_iff.mpr hmem)).1
      exact ⟨answer, hanswer⟩
    | true =>
      cases hanswer : FunctionReport.ofFunction p rules f with
      | ok answer => exact ⟨answer, rfl⟩
      | error e =>
        unfold Function.isSkippedBy Function.reportBy at hskipped
        rw [hanswer] at hskipped
        cases hskipped
  obtain ⟨answers', hanswers'⟩ := exists_mapM_ok hreport
  have hperm : ((answers.map (·.1)).filter (!·.skipped)).Perm
      ((answers'.map (·.1)).filter (!·.skipped)) := by
    rw [filter_reports hall, filter_reports (mapM_eq_ok.mp hanswers')]
    exact h.filterMap _
  obtain ⟨ds', hds', hperm, hkeys⟩ := programFindings_perm hperm hds
  have hsame : functions.mapM (FunctionReport.ofFunction (p.withFunctions functions) rules) =
      .ok answers' := by
    rwa [funext (FunctionReport.ofFunction_withFunctions p rules)]
  exact ⟨_, bind_eq_ok.mpr ⟨answers', hsame, bind_eq_ok.mpr ⟨ds', hds', rfl⟩⟩, hperm, hkeys⟩

/-- Two programs have the same types, and the same functions but for their order and those that are
skipped. If a run on one of them has a result, so has the run on the other. The findings are the
same, and they come in the same order but for those that are level in it. -/
theorem lint_perm {p p' : Program} (g : Registry) (c : Config) (htypes : p'.types = p.types)
    (hfunctions : (p.functions.filter (!·.isSkippedBy p (c.apply g).1.enabled)).Perm
      (p'.functions.filter (!·.isSkippedBy p' (c.apply g).1.enabled)))
    {result : RunResult} {notes : List Note} (hrun : lint g c p = .ok (result, notes)) :
    ∃ result' notes', lint g c p' = .ok (result', notes') ∧
      result.diagnostics.Perm result'.diagnostics ∧
      result.diagnostics.map Diagnostic.sortKey = result'.diagnostics.map Diagnostic.sortKey := by
  have hp' : p' = p.withFunctions p'.functions := by
    cases p'
    cases htypes
    rfl
  have hskipped : ∀ f : Function, f.isSkippedBy p' (c.apply g).1.enabled =
      f.isSkippedBy p (c.apply g).1.enabled := by
    intro f
    unfold Function.isSkippedBy Function.reportBy
    rw [hp', FunctionReport.ofFunction_withFunctions]
  simp only [hskipped] at hfunctions
  obtain ⟨answer, hanswer, heq⟩ := bind_eq_ok.mp hrun
  obtain ⟨answer', hanswer', hperm, hkeys⟩ := runRules_perm hfunctions hanswer
  rw [← hp'] at hanswer'
  have hresult : answer.1 = result := (Prod.mk.inj (pure_eq_ok.mp heq)).1
  rw [← hresult]
  exact ⟨answer'.1, _, bind_eq_ok.mpr ⟨answer', hanswer', rfl⟩, hperm, hkeys⟩

/-- A function that deserializes a type from account data in a line of a file. -/
def Function.deserializing (name : String) (line : Int) : Function :=
  { name := name
    exprs := [
      { id := 0, kind := .localVar, localName := "account" },
      { id := 1, kind := .field, name := some (.text "data"), receiver := some 0 },
      { id := 2, kind := .call, name := some (.text "State::try_from_slice"), operands := [1]
        type := some (.index 0), location := { file := "lib.rs", line := line } }]
    blocks := [{ id := 0, stmts := [{ kind := .eval, value := 2 }] }] }

/-- A struct without a discriminant, two functions that deserialize it and one without a body. -/
def Program.loadStore : Program :=
  { types := [{ id := 0, path := .text "crate::State", kind := .struct }]
    functions := [.deserializing "load" 7, { name := "external", modeled := false },
      .deserializing "store" 3] }

/-- The same functions the other way round, but for the one without a body. -/
def Program.storeLoad : Program :=
  { types := [{ id := 0, path := .text "crate::State", kind := .struct }]
    functions := [.deserializing "store" 3, .deserializing "load" 7] }

theorem lint_perm_storeLoad :
    ∃ result notes result' notes',
      Program.storeLoad.types = Program.loadStore.types ∧
      (Program.loadStore.functions.filter (!·.isSkippedBy .loadStore Rule.defaults)).Perm
        (Program.storeLoad.functions.filter (!·.isSkippedBy .storeLoad Rule.defaults)) ∧
      lint .default {} .loadStore = .ok (result, notes) ∧
      lint .default {} .storeLoad = .ok (result', notes') ∧
      result.diagnostics.Perm result'.diagnostics ∧
      result.diagnostics.map Diagnostic.sortKey = result'.diagnostics.map Diagnostic.sortKey ∧
      result.diagnostics.map (fun d => (d.category, d.function, d.secondary.map (·.line))) =
        [("type-cosplay", "store", [7])] := by
  have hfunctions :
      (Program.loadStore.functions.filter (!·.isSkippedBy .loadStore Rule.defaults)).Perm
        (Program.storeLoad.functions.filter (!·.isSkippedBy .storeLoad Rule.defaults)) := by
    decide +kernel
  have hvalue : (lint .default {} .loadStore).toOption.map (fun a => a.1.diagnostics.map
      (fun d => (d.category, d.function, d.secondary.map (·.line)))) =
        some [("type-cosplay", "store", [7])] := by
    decide +kernel
  obtain ⟨⟨result, notes⟩, hrun, hfound⟩ := Option.map_eq_some_iff.mp hvalue
  have hrun := ok_of_toOption hrun
  have htypes : Program.storeLoad.types = Program.loadStore.types := rfl
  obtain ⟨result', notes', hrun', hperm, hkeys⟩ := lint_perm .default {} htypes hfunctions hrun
  exact ⟨result, notes, result', notes', htypes, hfunctions, hrun, hrun', hperm, hkeys, hfound⟩

end AccountLint
