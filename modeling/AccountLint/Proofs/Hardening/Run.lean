import Mathlib.Data.Multiset.Basic
import AccountLint.Proofs.Hardening.Declarations
import AccountLint.Proofs.Total.Run

/-! Hardening declarations never adds a finding to a run. -/
namespace AccountLint

def RunResult.contents (r : RunResult) :
    Multiset (String × String × String × Location × List Location × String × String) :=
  r.diagnostics.map Diagnostic.content

variable {p p' : Program}

private theorem mergedTypes_eq {reports reports' : List FunctionReport}
    (h : List.Forall₂ FunctionReport.Thins reports reports') :
    mergedTypes reports' = mergedTypes reports := by
  have hfold : ∀ set : TypeSet,
      reports'.foldl (fun set r => if r.skipped then set else set.merge r.types) set =
        reports.foldl (fun set r => if r.skipped then set else set.merge r.types) set := by
    induction h with
    | nil => exact fun _ => rfl
    | cons hr _ ih =>
      intro set
      rw [List.foldl_cons, List.foldl_cons, hr.skipped, hr.types]
      exact ih _
  exact hfold {}

private theorem diagnostics_thins {reports reports' : List FunctionReport}
    (h : List.Forall₂ FunctionReport.Thins reports reports') :
    Thins Diagnostic.content ((reports.filter (!·.skipped)).flatMap (·.diagnostics))
      ((reports'.filter (!·.skipped)).flatMap (·.diagnostics)) := by
  have hfilter := List.rel_filter (p := (!·.skipped)) (q := (!·.skipped))
    (fun r r' hr => by beta_reduce; rw [hr.skipped]) h
  refine Thins.flatten ?_
  exact List.rel_map (fun _ _ hr => hr.diagnostics) hfilter

namespace Program.Hardens

private theorem programFindings (h : p.Hardens p') (rules : List Rule) (tags : List Value)
    {reports reports' : List FunctionReport}
    (hreports : List.Forall₂ FunctionReport.Thins reports reports') :
    Agree (fun ds ds' => (ds'.map Diagnostic.content).Subperm (ds.map Diagnostic.content))
      (programFindings p rules tags reports) (programFindings p' rules tags reports') := by
  unfold AccountLint.programFindings
  rw [mergedTypes_eq hreports]
  refine (h.typeFindings tags rules _).bind fun ts ts' hts => ?_
  have hdeclared : Agree (Thins Diagnostic.content)
      (concatM (fun r => r.declarationFindings p) rules)
      (concatM (fun r => r.declarationFindings p') rules) :=
    .concatM (.refl []) Thins.append (List.forall₂_same.mpr fun r _ => h.declarationFindings r)
  refine hdeclared.bind fun ds ds' hds => .ok ?_
  have hall := ((diagnostics_thins hreports).append hts).append hds
  unfold Diagnostic.sort
  exact (((sortBy_perm _ _).map _).subperm_right.trans
    ((sortBy_perm _ _).map _).subperm_left).mpr hall.subperm

private theorem runRules (h : p.Hardens p') {rules : List Rule} (hsteady : ∀ r ∈ rules, r.Steady)
    (hplain : ∀ r ∈ rules, r.Plain) (htypes : p.TypesInRange)
    (hexprs : ∀ f ∈ p.functions, ∀ e ∈ f.exprs, p.InTable e.type)
    (hparams : ∀ f ∈ p.functions, ∀ q ∈ f.params, p.InTable q.type) (tags : List Value) :
    Agree (fun a a' => a'.1.contents ≤ a.1.contents) (runRules p rules tags)
      (runRules p' rules tags) := by
  unfold AccountLint.runRules
  rw [h.functions]
  have hreports : Agree (List.Forall₂ fun a a' => FunctionReport.Thins a.1 a'.1)
      (p.functions.mapM (FunctionReport.ofFunction p rules))
      (p.functions.mapM (FunctionReport.ofFunction p' rules)) := by
    refine .mapM (List.forall₂_same.mpr fun f hf => ?_)
    exact FunctionReport.ofFunction_agree h hsteady hplain htypes (hexprs f hf) (hparams f hf)
  refine hreports.bind fun answers answers' hanswers => ?_
  have hfirst : List.Forall₂ FunctionReport.Thins (answers.map (·.1)) (answers'.map (·.1)) :=
    List.forall₂_map_left_iff.mpr (List.forall₂_map_right_iff.mpr hanswers)
  refine (h.programFindings rules tags hfirst).bind fun ds ds' hds => ?_
  exact .ok (Multiset.coe_le.mpr hds)

/-- Hardening with texts leaves a program well formed. -/
theorem wellFormed (h : p.Hardens p') (hp : p.WellFormed)
    (hnames : ∀ t ∈ p'.types, ∀ d ∈ t.fields, ∀ n ∈ d.distinctFrom, ∃ s, n = .text s) :
    p'.WellFormed := by
  have hrange := h.typesInRange hp.typesInRange
  have hfunctions := h.functions
  constructor
  case typeId => exact hrange.id
  case fieldType => exact hrange.field
  case argType => exact hrange.arg
  case paramType =>
    rw [hfunctions]
    exact fun f hf q hq => h.inTable (hp.paramType f hf q hq)
  case exprType =>
    rw [hfunctions]
    exact fun f hf e he => h.inTable (hp.exprType f hf e he)
  case construct =>
    rw [hfunctions]
    exact hp.construct
  case typePath =>
    intro t' ht'
    obtain ⟨t, ht, hhard⟩ := exists_of_forall₂_right h.types ht'
    rw [hhard.path]
    exact hp.typePath t ht
  case trait =>
    intro t' ht'
    obtain ⟨t, ht, hhard⟩ := exists_of_forall₂_right h.types ht'
    rw [hhard.traits]
    exact hp.trait t ht
  case fieldName =>
    intro t' ht' d' hd'
    obtain ⟨t, ht, hhard⟩ := exists_of_forall₂_right h.types ht'
    obtain ⟨d, hd, hfield⟩ := exists_of_forall₂_right hhard.fields hd'
    rw [hfield.name]
    exact hp.fieldName t ht d hd
  case distinctFrom => exact hnames
  case paramName =>
    rw [hfunctions]
    exact hp.paramName
  case exprName =>
    rw [hfunctions]
    exact hp.exprName
  case target =>
    rw [hfunctions]
    exact hp.target

end Program.Hardens

/-- Hardening the declarations of a program never adds a finding of the default rules; and if the
program is well formed and the names are texts, the run on what it was hardened to has a result. -/
theorem contents_le_of_hardens (h : p.Hardens p') (htypes : p.TypesInRange)
    (hexprs : ∀ f ∈ p.functions, ∀ e ∈ f.exprs, p.InTable e.type)
    (hparams : ∀ f ∈ p.functions, ∀ q ∈ f.params, p.InTable q.type) {result : RunResult}
    {notes : List Note} (hrun : lint .default {} p = .ok (result, notes)) :
    (∀ result' notes', lint .default {} p' = .ok (result', notes') →
      result'.contents ≤ result.contents) ∧
    (p.WellFormed →
      (∀ t ∈ p'.types, ∀ d ∈ t.fields, ∀ n ∈ d.distinctFrom, ∃ s, n = .text s) →
      ∃ result' notes', lint .default {} p' = .ok (result', notes')) := by
  have hplain : ∀ r ∈ (({} : Config).apply .default).1.enabled, r.Plain := by
    rw [enabled_default]
    exact fun r hr => Rule.plain_of_mem_defaults hr
  constructor
  · intro result' notes' hrun'
    have hsteady : ∀ r ∈ (({} : Config).apply .default).1.enabled, r.Steady := by
      rw [enabled_default]
      exact fun r hr => Rule.steady_of_mem_defaults hr
    obtain ⟨answer, hanswer, heq⟩ := bind_eq_ok.mp hrun
    obtain ⟨answer', hanswer', heq'⟩ := bind_eq_ok.mp hrun'
    have hle := h.runRules hsteady hplain htypes hexprs hparams _ answer answer' hanswer hanswer'
    rw [← (Prod.mk.inj (pure_eq_ok.mp heq)).1, ← (Prod.mk.inj (pure_eq_ok.mp heq')).1]
    exact hle
  · intro hp hnames
    obtain ⟨result', notes', hrun', _⟩ :=
      runRules_of_wellFormed (h.wellFormed hp hnames) hplain ({} : Config).tags
    exact ⟨result', _, bind_eq_ok.mpr ⟨_, hrun', rfl⟩⟩

/-- A program that moves something between two mutable accounts, the first of which is declared with
some constraints and to differ from others. -/
def Program.transfer (constraints distinctFrom : List Value) : Program :=
  { types := [
      { id := 0, path := .text Paths.account, args := [some (.index 1)] },
      { id := 1, path := .text "crate::Vault", kind := .struct },
      { id := 2, path := .text "crate::Transfer", kind := .struct
        attributes := [.text TypeFact.accountsStruct]
        fields := [
          { name := .text "source", type := some (.index 0), constraints := constraints
            distinctFrom := distinctFrom },
          { name := .text "target", type := some (.index 0), constraints := [.text "mut"] }] },
      { id := 3, path := .text Paths.context, args := [some (.index 2)] }]
    functions := [
      { name := "transfer", params := [{ name := .text "ctx", type := some (.index 3) }]
        blocks := [{ id := 0 }] }] }

private theorem Program.wellFormed_transfer : (Program.transfer [.text "mut"] []).WellFormed := by
  have hin : ∀ i : Int, 0 ≤ i → i < 4 →
      (Program.transfer [.text "mut"] []).InTable (some (.index i)) := by
    intro i h0 hlt t ht
    exact ⟨i, (Option.some.inj ht).symm, h0, hlt⟩
  constructor
  case typeId =>
    intro i t h
    match i with
    | 0 | 1 | 2 | 3 =>
      rw [← Option.some.inj h]
      rfl
    | i + 4 => cases h
  case fieldType => simpa [Program.transfer] using hin 0 (by decide) (by decide)
  case argType =>
    simpa [Program.transfer] using
      And.intro (hin 1 (by decide) (by decide)) (hin 2 (by decide) (by decide))
  case paramType => simpa [Program.transfer] using hin 3 (by decide) (by decide)
  all_goals simp [Program.transfer]

private theorem Program.hardens_transfer : (Program.transfer [.text "mut"] []).Hardens
    (.transfer [.text "mut", .text "signer"] [.text "target"]) := by
  refine ⟨?_, rfl⟩
  refine .cons (.refl _) (.cons (.refl _) (.cons ?_ (.cons (.refl _) .nil)))
  have hsource : FieldDecl.Hardens
      { name := .text "source", type := some (.index 0), constraints := [.text "mut"] }
      { name := .text "source", type := some (.index 0)
        constraints := [.text "mut", .text "signer"], distinctFrom := [.text "target"] } := by
    constructor <;> simp
  constructor
  case fields => exact .cons hsource (.cons (.refl _) .nil)
  all_goals simp

theorem contents_le_of_hardens_transfer :
    (Program.transfer [.text "mut"] []).Hardens
      (.transfer [.text "mut", .text "signer"] [.text "target"]) ∧
    ∃ result notes result' notes',
      lint .default {} (.transfer [.text "mut"] []) = .ok (result, notes) ∧
      lint .default {} (.transfer [.text "mut", .text "signer"] [.text "target"]) =
        .ok (result', notes') ∧
      result'.contents ≤ result.contents ∧
      result.diagnostics.length = 2 ∧ result'.diagnostics.length = 0 := by
  have hp := Program.wellFormed_transfer
  have hold : (lint .default {} (.transfer [.text "mut"] [])).toOption.map
      (·.1.diagnostics.length) = some 2 := by
    decide +kernel
  have hnew : (lint .default {} (.transfer [.text "mut", .text "signer"] [.text "target"])).toOption.map
      (·.1.diagnostics.length) = some 0 := by
    decide +kernel
  obtain ⟨⟨result, notes⟩, hrun, hlength⟩ := Option.map_eq_some_iff.mp hold
  obtain ⟨⟨result', notes'⟩, hrun', hlength'⟩ := Option.map_eq_some_iff.mp hnew
  have hrun := ok_of_toOption hrun
  have hrun' := ok_of_toOption hrun'
  refine ⟨Program.hardens_transfer, result, notes, result', notes', hrun, hrun', ?_, hlength, hlength'⟩
  exact (contents_le_of_hardens Program.hardens_transfer hp.typesInRange hp.exprType hp.paramType
    hrun).1 result' notes' hrun'

end AccountLint
