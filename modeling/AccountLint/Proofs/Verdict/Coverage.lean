import AccountLint.Proofs.Flow.Dominance
import AccountLint.Rule.Defaults
import AccountLint.Verdict.Function

/-! Coverage is monotone: more guards cover more, fewer edges leave fewer ways around the guards,
and guards on all paths to a sink that can be reached are there at all. -/
namespace AccountLint

/-- For every guard of some places there is one among others, in the same block. -/
def Outdoes (paths : List AccessPath) (gs gs' : List Guard) : Prop :=
  ∀ g ∈ gs, g.covers paths = true → ∃ g' ∈ gs', g'.covers paths = true ∧ g'.block = g.block

namespace Outdoes

variable {paths : List AccessPath}

theorem nil_left (gs' : List Guard) : Outdoes paths [] gs' := fun _ hg => (by cases hg)

theorem refl (gs : List Guard) : Outdoes paths gs gs := fun g hg hc => ⟨g, hg, hc, rfl⟩

private theorem of_subset {gs gs' : List Guard} (h : ∀ g ∈ gs, g ∈ gs') : Outdoes paths gs gs' :=
  fun g hg hc => ⟨g, h g hg, hc, rfl⟩

theorem append {gs gs' hs hs' : List Guard} (h : Outdoes paths gs gs') (h' : Outdoes paths hs hs') :
    Outdoes paths (gs ++ hs) (gs' ++ hs') := by
  intro g hg hc
  rcases List.mem_append.mp hg with hg | hg
  · obtain ⟨g', hg', hc', hb⟩ := h g hg hc
    exact ⟨g', List.mem_append_left _ hg', hc', hb⟩
  · obtain ⟨g', hg', hc', hb⟩ := h' g hg hc
    exact ⟨g', List.mem_append_right _ hg', hc', hb⟩

end Outdoes

namespace Rule

/-- Guards that outdo others for the places of a sink cover it if the others do. -/
theorem isCovered_le {r : Rule} {f f' : Facts} (hf : f'.function = f.function) {gs gs' : List Guard}
    {s : Sink} (h : Outdoes s.paths gs gs') : r.isCovered f gs s ≤ r.isCovered f' gs' s := by
  unfold isCovered
  split
  · exact Bool.le_refl _
  · dsimp only
    cases r.coverage
    case allPaths =>
      rw [hf]
      refine Graph.setDominates_mono fun b hb => ?_
      obtain ⟨g, hg, rfl⟩ := List.mem_map.mp hb
      obtain ⟨hg, hc⟩ := List.mem_filter.mp hg
      obtain ⟨g', hg', hc', hblock⟩ := h g hg hc
      exact List.mem_map.mpr ⟨g', List.mem_filter.mpr ⟨hg', hc'⟩, hblock⟩
    case presence =>
      intro hsome
      rw [Bool.not_eq_true', ← Bool.not_eq_true, List.isEmpty_iff] at hsome ⊢
      obtain ⟨g, hg⟩ := List.exists_mem_of_ne_nil _ hsome
      obtain ⟨hg, hc⟩ := List.mem_filter.mp hg
      obtain ⟨g', hg', hc', _⟩ := h g hg hc
      exact List.ne_nil_of_mem (List.mem_filter.mpr ⟨hg', hc'⟩)
    all_goals exact Bool.le_refl _

/-- Guards that have to be passed on the way to a sink are there, if there is a way. -/
theorem isCovered_of_allPaths {r r' : Rule} (hr : r.coverage = .allPaths)
    (hr' : r'.coverage = .presence) {f : Facts} {guards : List Guard} {s : Sink}
    (hs : f.function.graph.isReachable s.block = true) (h : r.isCovered f guards s = true) :
    r'.isCovered f guards s = true := by
  unfold isCovered at h ⊢
  cases hu : s.unconditional with
  | true => simp [hu] at h
  | false =>
    simp only [hu, hr, hr', Bool.false_eq_true, if_false] at h ⊢
    cases hcovering : guards.filter (·.covers s.paths) with
    | nil =>
      rw [hcovering, List.map_nil, Graph.setDominates_nil hs] at h
      cases h
    | cons g rest => rfl

end Rule

/-- Coverage grows with the guards; dominance grows when edges are taken away; and what is covered
on all paths is covered by presence, if there is a path. -/
theorem coverage_monotone :
    (∀ (r : Rule) (f : Facts) (s : Sink) (guards larger : List Guard), (∀ g ∈ guards, g ∈ larger) →
      r.isCovered f guards s = true → r.isCovered f larger s = true) ∧
    (∀ f f' : Function, f.validate = .ok () → f'.validate = .ok () →
      (∀ b, b ∈ f.graph.ids ↔ b ∈ f'.graph.ids) → f.entry = f'.entry →
      (∀ a b, f.graph.Edge a b → f'.graph.Edge a b) → ∀ group b,
        f'.graph.setDominates group b = true → f.graph.setDominates group b = true) ∧
    ∀ (r r' : Rule) (f : Facts) (s : Sink) (guards : List Guard), r.coverage = .allPaths →
      r'.coverage = .presence → f.function.graph.isReachable s.block = true →
      r.isCovered f guards s = true → r'.isCovered f guards s = true := by
  refine ⟨?_, ?_, ?_⟩
  · intro r f s guards larger hsub
    exact Rule.isCovered_le rfl (.of_subset hsub)
  · intro f f' hf hf' hids hentry hedges group b
    have hd := (Function.Valid.of_validate hf).nodup_ids
    have hd' := (Function.Valid.of_validate hf').nodup_ids
    exact Graph.setDominates_of_fewer_edges hd hd' hids hentry hedges
  · intro r r' f s guards hr hr' hs
    exact Rule.isCovered_of_allPaths hr hr' hs

/-- Two branches that meet again. -/
def Function.branches : Function :=
  { name := "f", blocks := [{ id := 0, successors := [1, 2] }, { id := 1, successors := [3] },
      { id := 2, successors := [3] }, { id := 3 }] }

/-- The blocks of `Function.branches`, without the edge to one of the branches. -/
def Function.oneBranch : Function :=
  { name := "f", blocks := [{ id := 0, successors := [1] }, { id := 1, successors := [3] },
      { id := 2, successors := [3] }, { id := 3 }] }

def Guard.ofLocal (name : String) (block : Int) : Guard :=
  { category := .arbitraryCpi, kind := .comparison, block := block, paths := [.ofLocal name] }

theorem coverage_monotone_branches :
    let f : Facts := { (default : Facts) with function := .branches }
    let s : Sink := { category := .arbitraryCpi, block := 3, paths := [.ofLocal "a"] }
    let guards := [Guard.ofLocal "a" 1, .ofLocal "a" 2]
    Function.branches.validate = .ok () ∧ Function.oneBranch.validate = .ok () ∧
      Rule.arbitraryCpi.isCovered f guards s = true ∧ f.function.graph.isReachable s.block = true ∧
      Rule.arbitraryCpi.isCovered f (.ofLocal "b" 0 :: guards) s = true ∧
      Rule.missingOwnerCheck.isCovered f guards s = true ∧
      Function.branches.graph.setDominates [1, 2] 3 = true ∧
      Function.oneBranch.graph.setDominates [1, 2] 3 = true ∧
      Function.branches.graph.setDominates [1] 3 = false := by
  intro f s guards
  obtain ⟨hguards, hedges, hpresence⟩ := coverage_monotone
  have hsets : Function.branches.graph.isReachable 3 = true ∧
      Function.branches.graph.setDominates [1, 2] 3 = true ∧
      Function.branches.graph.setDominates [1] 3 = false := by
    simp [Function.branches, Function.graph, Graph.setDominates, Graph.isReachable, Graph.reachable,
      Graph.reachableWithout, Graph.targets, Graph.successors, Graph.successors?, Flow.closure,
      List.lookup_cons]
  obtain ⟨hreach, hboth, hone⟩ := hsets
  have hcovered : Rule.arbitraryCpi.isCovered f guards s = true := by
    have hall : guards.filter (·.covers s.paths) = guards := by decide
    unfold Rule.isCovered
    rw [hall]
    exact hboth
  have hsub : ∀ a b, Function.oneBranch.graph.Edge a b → Function.branches.graph.Edge a b := by
    rintro a b ⟨out, hmem, hb⟩
    have hfewer : ∀ e ∈ Function.oneBranch.graph.edges, ∀ c ∈ e.2,
        ∃ e' ∈ Function.branches.graph.edges, e'.1 = e.1 ∧ c ∈ e'.2 := by decide
    obtain ⟨⟨x, out'⟩, hmem', rfl, hb'⟩ := hfewer _ hmem b hb
    exact ⟨out', hmem', hb'⟩
  refine ⟨rfl, rfl, hcovered, hreach, ?_, ?_, hboth, ?_, hone⟩
  · exact hguards _ f s guards _ (fun g hg => List.mem_cons_of_mem _ hg) hcovered
  · exact hpresence _ _ f s guards rfl rfl hreach hcovered
  · exact hedges .oneBranch .branches rfl rfl (fun b => Iff.rfl) rfl hsub [1, 2] 3 hboth

end AccountLint
