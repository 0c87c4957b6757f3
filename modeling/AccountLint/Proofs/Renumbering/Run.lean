import AccountLint.Proofs.Renumbering.Verdict

/-! Runs on a program and on the same one with its types renumbered: the outcome is the same, but
for the order of findings that are level in theirs. -/
namespace AccountLint

variable {ρ : Equiv.Perm Int} {p p' : Program}

private theorem DeserializationSite.renumber_surjective (ρ : Equiv.Perm Int) :
    Function.Surjective (renumber ρ) := by
  intro site
  refine ⟨site.renumber ρ.symm, ?_⟩
  unfold renumber
  rw [Equiv.apply_symm_apply]

section Reports

variable {reports reports' : List FunctionReport}
  (h : List.Forall₂ (FunctionReport.Renumbers ρ) reports reports')
include h

private theorem filter_renumbers :
    List.Forall₂ (FunctionReport.Renumbers ρ) (reports.filter (!·.skipped))
    (reports'.filter (!·.skipped)) := by
  refine List.rel_filter (fun r r' hr => ?_) h
  beta_reduce
  rw [hr.skipped]

private theorem flatMap_diagnostics_perm :
    (reports.flatMap (·.diagnostics)).Perm (reports'.flatMap (·.diagnostics)) := by
  induction h with
  | nil => exact .nil
  | cons hr _ ih =>
    rw [List.flatMap_cons, List.flatMap_cons]
    exact hr.diagnostics.append ih

private theorem mergedTypes_renumber :
    ((mergedTypes reports).renumber ρ).sites.Perm (mergedTypes reports').sites := by
  have hinj := DeserializationSite.renumber_injective ρ
  refine (List.perm_ext_iff_of_nodup ((nodup_mergedTypes reports).map hinj)
    (nodup_mergedTypes reports')).mpr fun site' => ?_
  obtain ⟨site, rfl⟩ := DeserializationSite.renumber_surjective ρ site'
  rw [List.mem_map_of_injective hinj, mem_mergedTypes, mem_mergedTypes]
  constructor
  · rintro ⟨r, hr, hsite⟩
    obtain ⟨r', hr', hrel⟩ := exists_of_forall₂_left (filter_renumbers h) hr
    exact ⟨r', hr', (hrel.types site).mpr hsite⟩
  · rintro ⟨r', hr', hsite⟩
    obtain ⟨r, hr, hrel⟩ := exists_of_forall₂_right (filter_renumbers h) hr'
    exact ⟨r, hr, (hrel.types site).mp hsite⟩

private theorem size_mergedTypes_renumber :
    (mergedTypes reports').size = (mergedTypes reports).size := by
  rw [← (mergedTypes reports).size_renumber (ρ := ρ)]
  exact congrArg List.length (TypeSet.ids_congr (mergedTypes_renumber h).symm)

end Reports

namespace Program.Renumbers

variable (h : p.Renumbers ρ p')
include h

/-- The final sort puts the findings into an order that leaves open only how level ones stand. -/
theorem programFindings (rules : List Rule) (tags : List Value)
    {reports reports' : List FunctionReport}
    (hr : List.Forall₂ (FunctionReport.Renumbers ρ) reports reports') :
    Follows (fun ds ds' => ds.Perm ds' ∧ ds.map Diagnostic.sortKey = ds'.map Diagnostic.sortKey)
      (programFindings p rules tags reports) (programFindings p' rules tags reports') := by
  unfold AccountLint.programFindings
  rw [← typeFindings_congr (mergedTypes_renumber hr) p' tags rules]
  refine (h.typeFindings tags rules _).bind fun types types' htypes => ?_
  refine (Follows.concatM (List.forall₂_same.mpr fun r _ => h.declarationFindings r)).bind
    fun declarations declarations' hdeclarations => .ok ?_
  have hperm := ((flatMap_diagnostics_perm (filter_renumbers hr)).append htypes).append hdeclarations
  exact ⟨(sortBy_perm _ _).trans (hperm.trans (sortBy_perm _ _).symm), Diagnostic.map_sortKey_sort hperm⟩

private theorem runRules (rules : List Rule) (tags : List Value) :
    Follows (fun a a' => a'.2 = a.2 ∧ a'.1 = { a.1 with diagnostics := a'.1.diagnostics } ∧
        a.1.diagnostics.Perm a'.1.diagnostics ∧
        a.1.diagnostics.map Diagnostic.sortKey = a'.1.diagnostics.map Diagnostic.sortKey)
      (runRules p rules tags) (runRules p' rules tags) := by
  have hreports : Follows (List.Forall₂ fun a a' => a.1.Renumbers ρ a'.1 ∧ a'.2 = a.2)
      (p.functions.mapM (FunctionReport.ofFunction p rules))
      (p'.functions.mapM (FunctionReport.ofFunction p' rules)) := by
    rw [h.functions]
    refine Follows.mapM (List.forall₂_map_right_iff.mpr (List.forall₂_same.mpr fun f _ => ?_))
    exact h.ofFunction rules f
  refine hreports.bind fun answers answers' hanswers => ?_
  have hr : List.Forall₂ (FunctionReport.Renumbers ρ) (answers.map (·.1)) (answers'.map (·.1)) :=
    List.rel_map (fun a a' ha => ha.1) hanswers
  refine (h.programFindings rules tags hr).bind fun ds ds' hds => .ok ?_
  have hskipped : (answers'.filter (·.1.skipped)).map (·.1.function) =
      (answers.filter (·.1.skipped)).map (·.1.function) := by
    refine (map_eq_of_forall₂ (List.rel_filter (fun a a' ha => ?_) hanswers)
      fun a _ a' ha => ha.1.function.symm).symm
    beta_reduce
    rw [ha.1.skipped]
  have hnotes : answers'.flatMap (·.2) = answers.flatMap (·.2) := by
    rw [List.flatMap_def, List.flatMap_def]
    exact congrArg List.flatten (map_eq_of_forall₂ hanswers fun a _ a' ha => ha.2.symm).symm
  have hfunctions : p'.functions.map (·.name) = p.functions.map (·.name) := by
    rw [h.functions, List.map_map]
    rfl
  have hlength : p'.functions.length = p.functions.length := by rw [h.functions, List.length_map]
  refine ⟨?_, ?_, hds⟩
  · rw [hnotes, hlength, hds.1.length_eq]
  · rw [hskipped, hfunctions, size_mergedTypes_renumber hr]

private theorem lint (g : Registry) (c : Config) :
    Follows (fun a a' => a'.2 = a.2 ∧ a'.1 = { a.1 with diagnostics := a'.1.diagnostics } ∧
        a.1.diagnostics.Perm a'.1.diagnostics ∧
        a.1.diagnostics.map Diagnostic.sortKey = a'.1.diagnostics.map Diagnostic.sortKey)
      (lint g c p) (lint g c p') := by
  refine (h.runRules (c.apply g).1.enabled c.tags).bind fun a a' ha => .ok ?_
  exact ⟨congrArg ((c.apply g).2 ++ ·) ha.1, ha.2⟩

end Program.Renumbers

/-- The table of types is permuted, and all references to types with it. A run on the one program
has a result just if the run on the other has one. The results are the same, with the same notes,
but for the order of findings that are level: these are the same, and their keys come in the same
order. -/
theorem lint_renumber (g : Registry) (c : Config) (p : Program)
    (σ : Equiv.Perm (Fin p.types.length)) :
    ((∃ answer, lint g c (p.renumber σ) = .ok answer) ↔ ∃ answer, lint g c p = .ok answer) ∧
      ∀ result notes, lint g c p = .ok (result, notes) →
        ∃ result', lint g c (p.renumber σ) = .ok (result', notes) ∧
          result' = { result with diagnostics := result'.diagnostics } ∧
          result.diagnostics.Perm result'.diagnostics ∧
          result.diagnostics.map Diagnostic.sortKey = result'.diagnostics.map Diagnostic.sortKey := by
  have h := p.renumbers_renumber σ
  refine ⟨⟨?_, ?_⟩, ?_⟩
  · rintro ⟨answer, hanswer⟩
    obtain ⟨answer', hanswer', _⟩ := h.symm.lint g c answer hanswer
    exact ⟨answer', hanswer'⟩
  · rintro ⟨answer, hanswer⟩
    obtain ⟨answer', hanswer', _⟩ := h.lint g c answer hanswer
    exact ⟨answer', hanswer'⟩
  · intro result notes hrun
    obtain ⟨⟨result', notes'⟩, hrun', hnotes, hresult⟩ := h.lint g c _ hrun
    obtain rfl : notes' = notes := hnotes
    exact ⟨result', hrun', hresult⟩

/-- A function that borrows two accounts of coins and two of shares, one of each in every line of a
call. -/
def Function.settling : Function :=
  let account (id : Int) (name : String) (type : Int) : Expr :=
    { id := id, kind := .localVar, localName := name, type := some (.index type) }
  let borrowed (id : Int) (type line : Int) : Expr :=
    { id := id, kind := .ref, receiver := some (id - 4), mutable := true, type := some (.index type)
      location := { file := "lib.rs", line := line } }
  { name := "settle"
    exprs := [account 0 "taker" 2, account 1 "vault" 3, account 2 "maker" 2, account 3 "fees" 3,
      borrowed 4 2 5, borrowed 5 3 5, borrowed 6 2 6, borrowed 7 3 6,
      { id := 8, kind := .call, name := some (.text "crate::settle"), operands := [4, 5, 6, 7] }]
    blocks := [{ id := 0, stmts := [{ kind := .eval, value := 8 }] }] }

/-- A program with coins before shares. -/
def Program.settling : Program :=
  { types := [
      { id := 0, path := .text "crate::Coin", kind := .struct },
      { id := 1, path := .text "crate::Share", kind := .struct },
      { id := 2, path := .text Paths.account, args := [some (.index 0)] },
      { id := 3, path := .text Paths.account, args := [some (.index 1)] }]
    functions := [.settling] }

/-- The order of its types with shares before coins. -/
def Program.sharesFirst : Equiv.Perm (Fin Program.settling.types.length) :=
  Equiv.swap ⟨0, by decide⟩ ⟨1, by decide⟩

theorem lint_renumber_settling :
    ∃ result notes result',
      lint .default {} .settling = .ok (result, notes) ∧
      lint .default {} (Program.settling.renumber Program.sharesFirst) = .ok (result', notes) ∧
      result' = { result with diagnostics := result'.diagnostics } ∧
      result.diagnostics.Perm result'.diagnostics ∧
      result.diagnostics.map Diagnostic.sortKey = result'.diagnostics.map Diagnostic.sortKey ∧
      result.diagnostics.map (·.evidence) =
        [.sink 0 ["maker", "taker"] 0, .sink 0 ["fees", "vault"] 0] ∧
      result'.diagnostics.map (·.evidence) =
        [.sink 0 ["fees", "vault"] 0, .sink 0 ["maker", "taker"] 0] := by
  have hvalue : (lint .default {} .settling).toOption.map (fun a => a.1.diagnostics.map (·.evidence)) =
      some [.sink 0 ["maker", "taker"] 0, .sink 0 ["fees", "vault"] 0] := by
    decide +kernel
  have hvalue' : (lint .default {} (Program.settling.renumber Program.sharesFirst)).toOption.map
      (fun a => a.1.diagnostics.map (·.evidence)) =
        some [.sink 0 ["fees", "vault"] 0, .sink 0 ["maker", "taker"] 0] := by
    decide +kernel
  obtain ⟨⟨result, notes⟩, hrun, hfound⟩ := Option.map_eq_some_iff.mp hvalue
  have hrun := ok_of_toOption hrun
  obtain ⟨result', hrun', hresult, hperm, hkeys⟩ :=
    (lint_renumber .default {} .settling Program.sharesFirst).2 result notes hrun
  rw [hrun'] at hvalue'
  exact ⟨result, notes, result', hrun, hrun', hresult, hperm, hkeys, hfound,
    Option.some.inj hvalue'⟩

end AccountLint
