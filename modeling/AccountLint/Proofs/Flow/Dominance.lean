import AccountLint.Flow.Dominance
import AccountLint.Proofs.Program.Valid

/-! Dominance means what paths say: the three queries about it agree with the paths from the entry,
of which there are infinitely many where there are cycles. -/
namespace AccountLint
namespace Graph

/-- Every path from the entry to a block visits one of a group of blocks. -/
def AllPathsMeet (g : Graph) (group : List Int) (b : Int) : Prop :=
  ∀ visited, g.Path b visited → ∃ c ∈ visited, c ∈ group

private theorem allPathsMeet_iff_not_mem {g : Graph} (hd : g.ids.Nodup) {group : List Int}
    {b : Int} :
    g.AllPathsMeet group b ↔ b ∉ g.reachableWithout group := by
  rw [mem_reachableWithout_iff hd]
  constructor
  · intro h hp
    obtain ⟨visited, hp, ha⟩ := hp
    obtain ⟨c, hc, hg⟩ := h visited hp
    exact ha c hc hg
  · intro h visited hp
    by_contra hn
    exact h ⟨visited, hp, fun c hc hg => hn ⟨c, hc, hg⟩⟩

/-- The answer for a group of blocks: its shortcuts for a member, for a block that cannot be reached
and for no blocks at all agree with the search. -/
theorem setDominates_eq_true_iff {g : Graph} (hd : g.ids.Nodup) (hne : g.edges ≠ [])
    {group : List Int} {b : Int} :
    g.setDominates group b = true ↔ g.AllPathsMeet group b := by
  have hr := isReachable_iff hd hne (b := b)
  unfold setDominates
  split
  · rename_i h
    refine iff_of_true rfl ?_
    intro visited hp
    rcases Bool.or_eq_true_iff.mp h with hm | hu
    · exact ⟨b, hp.mem_self, List.contains_iff_mem.mp hm⟩
    · rw [hr.mpr ⟨visited, hp⟩] at hu
      cases hu
  · rename_i h
    split
    · rename_i hempty
      obtain rfl := List.isEmpty_iff.mp hempty
      have hreach : g.isReachable b = true := by simpa using h
      obtain ⟨visited, hp⟩ := hr.mp hreach
      refine iff_of_false Bool.false_ne_true ?_
      intro hall
      obtain ⟨c, _, hc⟩ := hall visited hp
      cases hc
    · rw [allPathsMeet_iff_not_mem hd, Bool.not_eq_true', ← Bool.not_eq_true, List.contains_iff_mem]

/-- More blocks dominate at least as much. -/
theorem setDominates_mono {g : Graph} {group larger : List Int} {b : Int}
    (hs : ∀ c ∈ group, c ∈ larger) (h : g.setDominates group b = true) :
    g.setDominates larger b = true := by
  unfold setDominates at h ⊢
  by_cases hb : b ∈ larger
  · simp [hb]
  · have hb' : b ∉ group := fun hmem => hb (hs b hmem)
    cases hr : g.isReachable b with
    | false => simp
    | true =>
      cases group with
      | nil => simp [hr] at h
      | cons c rest =>
        have hne : larger ≠ [] := List.ne_nil_of_mem (hs c List.mem_cons_self)
        have hcut : b ∉ g.reachableWithout (c :: rest) := by simpa [hb', hr] using h
        have hcut' : b ∉ g.reachableWithout larger := fun hmem =>
          hcut (reachableWithout_subset hs b hmem)
        simp [hb, hne, hcut']

theorem setDominates_nil {g : Graph} {b : Int} (h : g.isReachable b = true) :
    g.setDominates [] b = false := by
  simp [setDominates, h]

/-- Fewer edges are dominated at least as much: the paths along them are paths already. -/
theorem setDominates_of_fewer_edges {g g' : Graph} (hd : g.ids.Nodup) (hd' : g'.ids.Nodup)
    (hids : ∀ b, b ∈ g.ids ↔ b ∈ g'.ids) (hentry : g.entry = g'.entry)
    (hedges : ∀ a b, g.Edge a b → g'.Edge a b) {group : List Int} {b : Int}
    (h : g'.setDominates group b = true) : g.setDominates group b = true := by
  by_cases hne : g.edges = []
  · simp [setDominates, isReachable, reachable, hne]
  · have hne' : g'.edges ≠ [] := by
      obtain ⟨e, he⟩ := List.exists_mem_of_ne_nil _ hne
      have hid : e.1 ∈ g'.ids := (hids e.1).mp (List.mem_map.mpr ⟨e, he, rfl⟩)
      obtain ⟨e', he', _⟩ := List.mem_map.mp hid
      exact List.ne_nil_of_mem he'
    rw [setDominates_eq_true_iff hd hne]
    intro visited hp
    exact (setDominates_eq_true_iff hd' hne').mp h visited (hp.mono hentry hedges)

theorem cutsOff_eq_true_iff {g : Graph} (hd : g.ids.Nodup) {a b : Int} :
    g.cutsOff a b = true ↔ ∀ visited, g.Path b visited → a ∈ visited := by
  have hm : (∀ visited, g.Path b visited → a ∈ visited) ↔ g.AllPathsMeet [a] b := by
    unfold AllPathsMeet
    simp only [List.mem_singleton, exists_eq_right]
  rw [hm]
  unfold cutsOff
  rw [Bool.or_eq_true, beq_iff_eq, Bool.not_eq_true', ← Bool.not_eq_true, List.contains_iff_mem,
    ← allPathsMeet_iff_not_mem hd]
  constructor
  · intro h visited hp
    rcases h with rfl | h
    · exact ⟨g.entry, hp.entry_mem, List.mem_singleton_self _⟩
    · exact h visited hp
  · exact Or.inr

/-- A block on a path can be reached. -/
theorem Path.exists_of_mem {g : Graph} {b c : Int} {visited : List Int} (h : g.Path b visited)
    (hc : c ∈ visited) : ∃ before, g.Path c before := by
  induction h with
  | entry =>
    obtain rfl := List.mem_singleton.mp hc
    exact ⟨_, .entry⟩
  | step hp he ih =>
    rcases List.mem_cons.mp hc with rfl | hc
    · exact ⟨_, hp.step he⟩
    · exact ih hc

/-- The precomputed answer for two blocks: what cuts a block off that can be reached can itself be
reached, so that asking for the latter changes nothing. -/
theorem dominates_eq_true_iff {g : Graph} (hd : g.ids.Nodup) (hne : g.edges ≠ []) {a b : Int} :
    g.dominates a b = true ↔ ∀ visited, g.Path b visited → a ∈ visited := by
  have hr := isReachable_iff hd hne (b := b)
  unfold dominates
  rw [Bool.or_eq_true, Bool.or_eq_true, Bool.and_eq_true, beq_iff_eq, Bool.not_eq_true',
    cutsOff_eq_true_iff hd]
  constructor
  · intro h visited hp
    rcases h with (rfl | hu) | h
    · exact hp.mem_self
    · rw [hr.mpr ⟨visited, hp⟩] at hu
      cases hu
    · exact h.2 visited hp
  · intro h
    by_cases hreach : g.isReachable b = true
    · obtain ⟨visited, hp⟩ := hr.mp hreach
      have ha : g.isReachable a = true :=
        (isReachable_iff hd hne).mpr (hp.exists_of_mem (h visited hp))
      exact Or.inr ⟨ha, h⟩
    · exact Or.inl (Or.inr (by simpa using hreach))

private theorem dominates_eq_setDominates {g : Graph} (hd : g.ids.Nodup) (hne : g.edges ≠ [])
    (a b : Int) :
    g.dominates a b = g.setDominates [a] b := by
  rw [Bool.eq_iff_iff, dominates_eq_true_iff hd hne, setDominates_eq_true_iff hd hne]
  unfold AllPathsMeet
  simp only [List.mem_singleton, exists_eq_right]

theorem mem_dominators_iff {g : Graph} {a b : Int} :
    a ∈ g.dominators b ↔ g.isReachable a = true ∧ g.cutsOff a b = true := by
  unfold dominators isReachable
  rw [List.mem_filter, List.contains_iff_mem]

private theorem mem_allDominators_iff {g : Graph} (hd : g.ids.Nodup) (hne : g.edges ≠ [])
    {a b : Int} (ha : a ∈ g.ids) : a ∈ g.allDominators b ↔ g.dominates a b = true := by
  rw [dominates_eq_true_iff hd hne]
  unfold allDominators
  split
  · rename_i hreach
    obtain ⟨visited, hp⟩ := (isReachable_iff hd hne).mp hreach
    rw [mem_dominators_iff, cutsOff_eq_true_iff hd]
    constructor
    · exact And.right
    · intro h
      exact ⟨(isReachable_iff hd hne).mpr (hp.exists_of_mem (h visited hp)), h⟩
  · rename_i hreach
    refine iff_of_true (mem_distinct.mpr ha) ?_
    intro visited hp
    exact absurd ((isReachable_iff hd hne).mpr ⟨visited, hp⟩) hreach

theorem greatest?_isSome {measure : Int → Nat} {xs : List Int} (h : xs ≠ []) :
    (greatest? measure xs).isSome = true := by
  cases xs with
  | nil => exact absurd rfl h
  | cons x xs =>
    rw [greatest?]
    split
    · rfl
    · split <;> rfl

/-- A block that can be reached has a closest dominator: the entry, for one, cuts it off. -/
theorem idom?_isSome {g : Graph} (hd : g.ids.Nodup) (hne : g.edges ≠ []) {b : Int}
    (hb : g.isReachable b = true) : (g.idom? b).isSome = true := by
  have hentry : g.isReachable g.entry = true := (isReachable_iff hd hne).mpr ⟨_, .entry⟩
  have hcut : g.entry ∈ cuttersIn g.dominated b := by
    unfold cuttersIn dominated
    refine List.mem_map.mpr ⟨_, List.mem_filter.mpr ⟨List.mem_map.mpr ⟨g.entry, ?_, rfl⟩, ?_⟩, rfl⟩
    · exact List.contains_iff_mem.mp hentry
    · rw [List.contains_iff_mem]
      exact List.mem_filter.mpr ⟨List.contains_iff_mem.mp hb, by simp⟩
  unfold idom? idomIn
  extract_lets cutters
  have hcutters : cutters.isEmpty = false := by
    rw [List.isEmpty_eq_false_iff]
    exact List.ne_nil_of_mem hcut
  rw [hcutters]
  by_cases he : b = g.entry
  · simp [he]
  · simp only [Bool.false_eq_true, if_false, beq_iff_eq, he]
    refine greatest?_isSome (List.ne_nil_of_mem (List.mem_filter.mpr ⟨hcut, ?_⟩))
    rw [bne_iff_ne]
    exact fun h => he h.symm

end Graph

/-- On a function that passes validation the queries about dominance decide what all paths do. -/
theorem Function.dominance_decides_paths {f : Function} (hf : f.validate = .ok ())
    (group : List Int) {a b : Int} (ha : a ∈ f.graph.ids) (hb : b ∈ f.graph.ids) :
    (f.graph.setDominates group b = true ↔
        ∀ visited, f.graph.Path b visited → ∃ c ∈ visited, c ∈ group) ∧
      ((¬ ∃ visited, f.graph.Path b visited) → f.graph.setDominates group b = true) ∧
      ((∃ visited, f.graph.Path b visited) → f.graph.setDominates [] b = false) ∧
      (f.graph.dominates a b = true ↔ ∀ visited, f.graph.Path b visited → a ∈ visited) ∧
      f.graph.dominates a b = f.graph.setDominates [a] b ∧
      (a ∈ f.graph.allDominators b ↔ f.graph.dominates a b = true) := by
  have hd := (Valid.of_validate hf).nodup_ids
  have hne : f.graph.edges ≠ [] := by
    intro he
    unfold Graph.ids at hb
    rw [he] at hb
    cases hb
  have hset : ∀ group, f.graph.setDominates group b = true ↔ f.graph.AllPathsMeet group b :=
    fun group => Graph.setDominates_eq_true_iff hd hne
  refine ⟨hset group, ?_, ?_, Graph.dominates_eq_true_iff hd hne,
    Graph.dominates_eq_setDominates hd hne a b, Graph.mem_allDominators_iff hd hne ha⟩
  · intro hn
    exact (hset group).mpr fun visited hp => absurd ⟨visited, hp⟩ hn
  · intro hp
    obtain ⟨visited, hp⟩ := hp
    rw [← Bool.not_eq_true, hset]
    intro hall
    obtain ⟨c, _, hc⟩ := hall visited hp
    cases hc

/-- A loop of two blocks that can be entered at both, a block behind it, and one that cannot be
reached. -/
def Function.twoEntryLoop : Function :=
  { name := "f", blocks := [{ id := 0, successors := [1, 2] }, { id := 1, successors := [2, 3] },
      { id := 2, successors := [1] }, { id := 3 }, { id := 4, successors := [3] }] }

theorem Function.dominance_decides_paths_twoEntryLoop :
    twoEntryLoop.validate = .ok () ∧ 1 ∈ twoEntryLoop.graph.ids ∧ 2 ∈ twoEntryLoop.graph.ids ∧
      3 ∈ twoEntryLoop.graph.ids ∧ 4 ∈ twoEntryLoop.graph.ids ∧
      (∀ visited, twoEntryLoop.graph.Path 3 visited → 1 ∈ visited) ∧
      ¬ (∀ visited, twoEntryLoop.graph.Path 3 visited → 2 ∈ visited) ∧
      2 ∈ twoEntryLoop.graph.allDominators 4 := by
  have hf : twoEntryLoop.validate = .ok () := rfl
  have h1 : 1 ∈ twoEntryLoop.graph.ids := by decide
  have h2 : 2 ∈ twoEntryLoop.graph.ids := by decide
  have h3 : 3 ∈ twoEntryLoop.graph.ids := by decide
  have h4 : 4 ∈ twoEntryLoop.graph.ids := by decide
  obtain ⟨_, _, _, h13, _, _⟩ := dominance_decides_paths hf [] h1 h3
  obtain ⟨_, _, _, h23, _, _⟩ := dominance_decides_paths hf [] h2 h3
  obtain ⟨_, _, _, _, _, h24⟩ := dominance_decides_paths hf [] h2 h4
  obtain ⟨hyes, hno, hall⟩ : twoEntryLoop.graph.dominates 1 3 = true ∧
      twoEntryLoop.graph.dominates 2 3 = false ∧ twoEntryLoop.graph.dominates 2 4 = true := by
    simp [twoEntryLoop, Function.graph, Graph.dominates, Graph.cutsOff, Graph.isReachable,
      Graph.reachable, Graph.reachableWithout, Graph.targets, Graph.successors, Graph.successors?,
      Flow.closure, List.lookup_cons]
  refine ⟨hf, h1, h2, h3, h4, h13.mp hyes, ?_, h24.mpr hall⟩
  rw [← h23, hno]
  exact Bool.false_ne_true

end AccountLint
